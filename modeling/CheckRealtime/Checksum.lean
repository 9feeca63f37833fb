import CheckRealtime.FileAnalysis
/-!
# Checksum — what a checksum tells apart

`get_checksum` narrows four fields of `struct stat` to `int` and joins them and the digest with colons.  The string is read
back at its separators, and of the fields only the size is wider than an `int`: `checksum_injective_iff` says which two
states of a file come to one string, and what that does to `do_analysis`.
-/
namespace CheckRealtime

/-! ## Reading it back -/

theorem hexDigit_inj {m n : Nat} (hm : m < 16) (hn : n < 16) (h : hexDigit m = hexDigit n) : m = n := by
  have hall : ∀ m : Fin 16, ∀ n : Fin 16, hexDigit m = hexDigit n → m = n := by decide
  exact congrArg Fin.val (hall ⟨m, hm⟩ ⟨n, hn⟩ h)

theorem hexByte_inj {b c : UInt8} (h : hexByte b = hexByte c) : b = c := by
  have hb := b.toNat_lt
  have hc := c.toNat_lt
  obtain ⟨hhigh, htail⟩ := List.cons.inj h
  have hhigh := hexDigit_inj (by omega) (by omega) hhigh
  have hlow := hexDigit_inj (by omega) (by omega) (List.cons.inj htail).1
  exact UInt8.toNat_inj.1 (by omega)

theorem hexOutput_inj {d e : Digest} (h : hexOutput d = hexOutput e) : d = e := by
  have hbytes : ∀ bs cs : Str, bs.flatMap hexByte = cs.flatMap hexByte → bs = cs := fun bs => by
    induction bs with
    | nil =>
      intro cs h
      cases cs with
      | nil => rfl
      | cons c cs => cases h
    | cons b bs ih =>
      intro cs h
      cases cs with
      | nil => cases h
      | cons c cs =>
        obtain ⟨hbyte, hrest⟩ := List.append_inj h rfl
        rw [hexByte_inj hbyte, ih cs hrest]
  obtain ⟨bs, hbs⟩ := d
  obtain ⟨cs, hcs⟩ := e
  cases hbytes bs cs h
  rfl

/-- The digest, when the file opens and reads to the end. -/
def Reading.digest? : Reading → Option Digest
  | .digest d => some d
  | _         => none

/-- The 32 digits are the digest, and nothing is printed without one. -/
theorem getMd5sum_eq_iff (r r' : Reading) : (getMd5sum r).2 = (getMd5sum r').2 ↔ r.digest? = r'.digest? := by
  have hne : ∀ d : Digest, hexOutput d ≠ [] := fun d h => by
    have hlen := hexOutput_length d
    rw [h] at hlen
    cases hlen
  cases r with
  | digest d =>
    cases r' with
    | digest e =>
      refine ⟨fun h => ?_, fun h => ?_⟩
      · rw [hexOutput_inj h]
      · cases h; rfl
    | openFails | readFails => exact iff_of_false (hne d) (fun h => by cases h)
  | openFails | readFails =>
    cases r' with
    | digest e => exact iff_of_false (fun h => hne e h.symm) (fun h => by cases h)
    | openFails | readFails => exact iff_of_true rfl rfl

theorem colon_inj {x y : Int} {r s : Str} (h : dec x ++ ascii ":" ++ r = dec y ++ ascii ":" ++ s) : x = y ∧ r = s := by
  have hcolon : ∀ i, 58 ∉ dec i := fun i h => absurd (mem_dec i 58 h) (by decide)
  rw [List.append_assoc, List.append_assoc] at h
  obtain ⟨hdec, hrest⟩ := append_sep_inj (hcolon x) (hcolon y) h
  exact ⟨dec_inj hdec, hrest⟩

/-- **The string holds the four narrowed fields and what was read.** -/
theorem checksumString_eq_iff (st st' : Stat) (sum sum' : Str) : checksumString st sum = checksumString st' sum' ↔
    toInt st.size = toInt st'.size ∧ toInt st.mode = toInt st'.mode ∧ toInt st.uid = toInt st'.uid ∧
      toInt st.gid = toInt st'.gid ∧ sum = sum' := by
  constructor
  · intro h
    obtain ⟨hsize, h⟩ := colon_inj h
    obtain ⟨hmode, h⟩ := colon_inj h
    obtain ⟨huid, h⟩ := colon_inj h
    obtain ⟨hgid, hsum⟩ := colon_inj h
    exact ⟨hsize, hmode, huid, hgid, hsum⟩
  · rintro ⟨hsize, hmode, huid, hgid, hsum⟩
    rw [checksumString, checksumString, hsize, hmode, huid, hgid, hsum]

/-! ## States of a file -/

/-- What is seen of a regular file or a link; `st_size` is a signed number of 64 bits, the other fields are unsigned and
have 32. -/
structure FileState where
  stat    : Stat
  reading : Reading
  kind    : (isReg stat.mode || isLnk stat.mode) = true
  size    : -2 ^ 63 ≤ stat.size ∧ stat.size < 2 ^ 63
  mode    : stat.mode < 2 ^ 32
  uid     : stat.uid < 2 ^ 32
  gid     : stat.gid < 2 ^ 32

def FileState.observed (a : FileState) : Observed := ⟨.ok a.stat, a.reading⟩

def FileState.checksum (a : FileState) : Str := (getChecksum a.observed []).2

structure SameState (a b : FileState) : Prop where
  size   : a.stat.size = b.stat.size
  mode   : a.stat.mode = b.stat.mode
  uid    : a.stat.uid = b.stat.uid
  gid    : a.stat.gid = b.stat.gid
  digest : a.reading.digest? = b.reading.digest?

/-- Nothing but the size is different, and that by a multiple of `2^32`. -/
structure Merged (a b : FileState) : Prop where
  size   : a.stat.size ≠ b.stat.size ∧ (2 : Int) ^ 32 ∣ a.stat.size - b.stat.size
  mode   : a.stat.mode = b.stat.mode
  uid    : a.stat.uid = b.stat.uid
  gid    : a.stat.gid = b.stat.gid
  digest : a.reading.digest? = b.reading.digest?

theorem toInt_natCast_inj {m n : Nat} (hm : m < 2 ^ 32) (hn : n < 2 ^ 32) : toInt m = toInt n ↔ m = n := by
  rw [toInt_eq_iff]
  constructor
  · rintro ⟨k, hk⟩
    omega
  · rintro rfl
    rw [Int.sub_self]
    exact Int.dvd_zero _

theorem checksum_eq_iff (a b : FileState) : a.checksum = b.checksum ↔ (2 : Int) ^ 32 ∣ a.stat.size - b.stat.size ∧
    a.stat.mode = b.stat.mode ∧ a.stat.uid = b.stat.uid ∧ a.stat.gid = b.stat.gid ∧
      a.reading.digest? = b.reading.digest? := by
  have hstring : ∀ c : FileState, c.checksum = checksumString c.stat (getMd5sum c.reading).2 := fun c => by
    simp only [FileState.checksum, getChecksum, FileState.observed, c.kind, if_true]
  rw [hstring, hstring, checksumString_eq_iff, toInt_eq_iff, toInt_natCast_inj a.mode b.mode, toInt_natCast_inj a.uid b.uid,
    toInt_natCast_inj a.gid b.gid, getMd5sum_eq_iff]

theorem merged_iff (a b : FileState) : Merged a b ↔ a.checksum = b.checksum ∧ ¬ SameState a b := by
  rw [checksum_eq_iff]
  constructor
  · intro h
    exact ⟨⟨h.size.2, h.mode, h.uid, h.gid, h.digest⟩, fun hsame => h.size.1 hsame.size⟩
  · rintro ⟨⟨hsize, hmode, huid, hgid, hdigest⟩, hdiffer⟩
    exact ⟨⟨fun he => hdiffer ⟨he, hmode, huid, hgid, hdigest⟩, hsize⟩, hmode, huid, hgid, hdigest⟩

/-! ## `do_analysis` -/

variable {σ : Type}

/-- A check of a file that is there raises nothing just when it comes to the string of the row. -/
theorem doAnalysis_silent_iff (C : Config) (D : DbOps σ) (now later : Int) (ob : Observed) (j : Judge σ) (dir name : Str)
    {db : σ} {sum : Str} {ts : Int} (hp : C.passes dir name = true) (hf : D.find j.db name = (db, some (sum, ts)))
    (hd : C.delays now ts = false) (hthere : ob.absent = false) :
    (doAnalysis C D now later ob j dir name).alerts = j.alerts ↔ sum = (getChecksum ob []).2 := by
  rw [doAnalysis_checked C D now later ob j dir name hp hf hd, hthere, if_neg Bool.false_ne_true]
  by_cases hc : (getChecksum ob []).2 = sum
  · rw [if_neg (not_not.2 hc)]
    exact iff_of_true rfl hc.symm
  · rw [if_pos hc]
    refine iff_of_false (fun h => ?_) (fun h => hc h.symm)
    have hlen := congrArg List.length h
    rw [List.length_append] at hlen
    exact absurd hlen (by simp)

/-- **Of two states of a file the string tells whether they are the same, unless the size alone is different and by a
multiple of `2^32`**; and so does the silence of a check that has the string of the one in its row and sees the other. -/
theorem checksum_injective_iff (a b : FileState) : ((a.checksum = b.checksum → SameState a b) ↔ ¬ Merged a b) ∧
    ∀ (C : Config) (D : DbOps σ) (now later : Int) (j : Judge σ) (dir name : Str) (db : σ) (ts : Int),
      C.passes dir name = true → D.find j.db name = (db, some (a.checksum, ts)) → C.delays now ts = false →
        (((doAnalysis C D now later b.observed j dir name).alerts = j.alerts → SameState a b) ↔ ¬ Merged a b) := by
  have hstring : (a.checksum = b.checksum → SameState a b) ↔ ¬ Merged a b := by
    rw [merged_iff, not_and, not_not]
  refine ⟨hstring, fun C D now later j dir name db ts hp hf hd => ?_⟩
  rw [doAnalysis_silent_iff C D now later b.observed j dir name hp hf hd rfl]
  exact hstring

/-- A file that does not open. -/
def unreadFile (size : Int) (h : -2 ^ 63 ≤ size ∧ size < 2 ^ 63) : FileState where
  stat    := ⟨size, 0o100600, 0, 0⟩
  reading := .openFails
  kind    := show (isReg 0o100600 || isLnk 0o100600) = true by decide
  size    := h
  mode    := show 0o100600 < 2 ^ 32 by decide
  uid     := Nat.two_pow_pos 32
  gid     := Nat.two_pow_pos 32

/-- An empty file and one of 4 GiB. -/
theorem unreadSizes_merge : ¬ ∀ a b : FileState, a.checksum = b.checksum → SameState a b := fun h => by
  have hmerged : (unreadFile 0 (by decide)).checksum = (unreadFile 4294967296 (by decide)).checksum :=
    (checksum_eq_iff _ _).2 ⟨⟨-1, rfl⟩, rfl, rfl, rfl, rfl⟩
  exact absurd (h _ _ hmerged).size (by decide)

end CheckRealtime
