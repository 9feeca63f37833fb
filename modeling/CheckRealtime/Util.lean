import Mathlib.Data.List.Basic
import Mathlib.Data.List.TakeWhile
import Mathlib.Data.Nat.Digits.Lemmas
/-!
# Util — byte strings and `util.cpp`

A `std::string` is the list of its bytes.  What a call of `get_checksum` can see of a file (`lstat`, then an open and a
read to the end) is an `Observed`, so the function itself is total: its result is a return code and the out parameter.
The digest of `md5.c` enters as the 16 bytes it leaves in `digest`.
-/
namespace CheckRealtime

abbrev Str := List UInt8

/-- The bytes of a literal of the source. -/
def ascii (s : String) : Str := s.toList.map (fun c => UInt8.ofNat c.toNat)

/-! ## Separators -/

/-- **What stands before the first separator, and what after it.** -/
theorem append_sep_inj {α : Type} {c : α} : ∀ {a b r s : List α}, c ∉ a → c ∉ b → a ++ c :: r = b ++ c :: s → a = b ∧ r = s
  | [], [], _, _, _, _, h => ⟨rfl, (List.cons.inj h).2⟩
  | [], y :: b, _, _, _, hb, h => absurd ((List.cons.inj h).1 ▸ List.mem_cons_self) hb
  | x :: a, [], _, _, ha, _, h => absurd ((List.cons.inj h).1 ▸ List.mem_cons_self) ha
  | x :: a, y :: b, _, _, ha, hb, h => by
    obtain ⟨hxy, h⟩ := List.cons.inj h
    obtain ⟨hab, hrs⟩ := append_sep_inj (fun hc => ha (List.mem_cons_of_mem x hc)) (fun hc => hb (List.mem_cons_of_mem y hc)) h
    exact ⟨by rw [hxy, hab], hrs⟩

/-! ## Numbers -/

/-- The conversion of a wider integer to a 32-bit `int`. -/
def toInt (x : Int) : Int := x.bmod (2 ^ 32)

theorem toInt_range (x : Int) : -2 ^ 31 ≤ toInt x ∧ toInt x < 2 ^ 31 :=
  ⟨Int.le_bmod (by decide), Int.bmod_lt (by decide)⟩

theorem toInt_of_int {x : Int} (h : -2 ^ 31 ≤ x ∧ x < 2 ^ 31) : toInt x = x :=
  Int.bmod_eq_of_le (by omega) (by omega)

/-- The conversion merges two values just when they are a multiple of `2^32` apart. -/
theorem toInt_eq_iff (x y : Int) : toInt x = toInt y ↔ (2 : Int) ^ 32 ∣ x - y := by
  rw [toInt, toInt, Int.bmod_eq_bmod_iff_bmod_sub_eq_zero]
  exact (Int.dvd_iff_bmod_eq_zero).symm

def decNat (n : Nat) : Str := (Nat.toDigits 10 n).map (fun c => UInt8.ofNat c.toNat)

/-- An integer in decimal, as `operator<<` and `%ld` print it. -/
def dec (i : Int) : Str := if i < 0 then 45 :: decNat i.natAbs else decNat i.natAbs

theorem decNat_of_lt (n : Nat) (h : n < 10) : decNat n = [UInt8.ofNat (48 + n)] := by
  rw [decNat, Nat.toDigits_of_lt_base h]
  interval_cases n <;> rfl

theorem decNat_of_le (n : Nat) (h : 10 ≤ n) : decNat n = decNat (n / 10) ++ [UInt8.ofNat (48 + n % 10)] := by
  have hd : decNat (n % 10) = [UInt8.ofNat (48 + n % 10)] := decNat_of_lt _ (Nat.mod_lt _ (by decide))
  rw [decNat, Nat.toDigits_of_lt_base (Nat.mod_lt _ (by decide))] at hd
  rw [decNat, Nat.toDigits_of_base_le (by decide) h, List.map_append, hd, decNat]

theorem decNat_ne_nil (n : Nat) : decNat n ≠ [] := by
  rcases Nat.lt_or_ge n 10 with hn | hn
  · rw [decNat_of_lt n hn]; exact List.cons_ne_nil _ _
  · rw [decNat_of_le n hn]; exact List.append_ne_nil_of_right_ne_nil _ (List.cons_ne_nil _ _)

theorem dec_ne_nil (i : Int) : dec i ≠ [] := by
  rw [dec]
  split
  · exact List.cons_ne_nil _ _
  · exact decNat_ne_nil _

theorem foldl_decNat (n : Nat) : (decNat n).foldl (fun n c => 10 * n + (c.toNat - 48)) 0 = n := by
  induction n using Nat.strongRecOn with
  | ind n ih =>
    have hdigit : ∀ d, d < 10 → (UInt8.ofNat (48 + d)).toNat - 48 = d := fun d hd => by
      interval_cases d <;> rfl
    rcases Nat.lt_or_ge n 10 with hn | hn
    · rw [decNat_of_lt n hn, List.foldl_cons, List.foldl_nil, hdigit n hn, Nat.mul_zero, Nat.zero_add]
    · rw [decNat_of_le n hn, List.foldl_append, ih (n / 10) (Nat.div_lt_self (by omega) (by decide)), List.foldl_cons,
        List.foldl_nil, hdigit _ (Nat.mod_lt _ (by decide))]
      omega

theorem decNat_inj {n m : Nat} (h : decNat n = decNat m) : n = m := by
  have hvalue := congrArg (List.foldl (fun n c => 10 * n + (c.toNat - 48)) 0) h
  rwa [foldl_decNat, foldl_decNat] at hvalue

theorem mem_decNat (n : Nat) (c : UInt8) (h : c ∈ decNat n) : 48 ≤ c ∧ c ≤ 57 := by
  induction n using Nat.strongRecOn with
  | ind n ih =>
    rcases Nat.lt_or_ge n 10 with hn | hn
    · rw [decNat_of_lt n hn, List.mem_singleton] at h
      subst h
      interval_cases n <;> decide
    · rw [decNat_of_le n hn, List.mem_append, List.mem_singleton] at h
      rcases h with h | rfl
      · exact ih (n / 10) (Nat.div_lt_self (by omega) (by decide)) h
      · have hr : n % 10 < 10 := Nat.mod_lt _ (by decide)
        interval_cases n % 10 <;> decide

theorem minus_notMem_decNat (n : Nat) : 45 ∉ decNat n := fun h => absurd (mem_decNat n 45 h).1 (by decide)

theorem dec_inj {i j : Int} (h : dec i = dec j) : i = j := by
  unfold dec at h
  split at h <;> split at h
  · have habs := decNat_inj (List.cons.inj h).2
    omega
  · exact absurd (h ▸ List.mem_cons_self) (minus_notMem_decNat j.natAbs)
  · exact absurd (h ▸ List.mem_cons_self) (minus_notMem_decNat i.natAbs)
  · have habs := decNat_inj h
    omega

theorem decNat_length_le (n k : Nat) (hk : 0 < k) (h : n < 10 ^ k) : (decNat n).length ≤ k := by
  rw [decNat, List.length_map]
  exact (Nat.length_toDigits_le_iff (by decide) hk).2 h

def isDecByte (c : UInt8) : Bool := c == 45 || (48 ≤ c && c ≤ 57)

theorem mem_dec (i : Int) (c : UInt8) (h : c ∈ dec i) : isDecByte c = true := by
  have hnat : c ∈ decNat i.natAbs → isDecByte c = true := fun h => by
    have := mem_decNat _ c h
    simp [isDecByte, this]
  unfold dec at h
  split at h
  · rcases List.mem_cons.1 h with rfl | h
    · rfl
    · exact hnat h
  · exact hnat h

theorem dec_toInt_length_le (x : Int) : (dec (toInt x)).length ≤ 11 := by
  have hx : (toInt x).natAbs < 10 ^ 10 := by
    have := toInt_range x
    omega
  have := decNat_length_le _ 10 (by decide) hx
  unfold dec
  split
  · rw [List.length_cons]; omega
  · omega

/-! ## Little-endian words -/

def leBytes : Nat → Nat → Str
  | 0, _     => []
  | k + 1, n => UInt8.ofNat n :: leBytes k (n / 256)

def leNat : Str → Nat
  | []     => 0
  | b :: s => b.toNat + 256 * leNat s

theorem leBytes_length : ∀ k n : Nat, (leBytes k n).length = k
  | 0, _     => rfl
  | k + 1, n => by rw [leBytes, List.length_cons, leBytes_length k]

theorem leNat_leBytes : ∀ k n : Nat, leNat (leBytes k n) = n % 256 ^ k
  | 0, n     => by rw [leBytes, leNat, Nat.pow_zero, Nat.mod_one]
  | k + 1, n => by
    rw [leBytes, leNat, leNat_leBytes k, Nat.pow_succ, Nat.mul_comm _ 256, Nat.mod_mul]
    rfl

theorem leNat_leBytes_of_lt (k n : Nat) (h : n < 256 ^ k) : leNat (leBytes k n) = n := by
  rw [leNat_leBytes, Nat.mod_eq_of_lt h]

theorem leBytes_mod : ∀ k n : Nat, leBytes k (n % 256 ^ k) = leBytes k n
  | 0, _     => rfl
  | k + 1, n => by
    have hhead : UInt8.ofNat (n % 256 ^ (k + 1)) = UInt8.ofNat n := UInt8.toNat_inj.1 (by
      rw [UInt8.toNat_ofNat', UInt8.toNat_ofNat', Nat.mod_mod_of_dvd _ ⟨256 ^ k, by rw [Nat.pow_succ, Nat.mul_comm]⟩])
    have htail : n % 256 ^ (k + 1) / 256 = n / 256 % 256 ^ k := by rw [Nat.pow_succ, Nat.mul_comm, Nat.mod_mul_right_div_self]
    rw [leBytes, leBytes, hhead, htail, leBytes_mod k]

theorem leBytes_append : ∀ j k n : Nat, leBytes (j + k) n = leBytes j n ++ leBytes k (n / 256 ^ j)
  | 0, k, n     => by rw [Nat.zero_add, Nat.pow_zero, Nat.div_one]; rfl
  | j + 1, k, n => by
    rw [show j + 1 + k = j + k + 1 by omega, leBytes, leBytes, leBytes_append j k, Nat.div_div_eq_div_mul, Nat.pow_succ,
      Nat.mul_comm 256, List.cons_append]

/-! ## C strings -/

/-- The bytes of a `char *`, up to its NUL. -/
def cstr (s : Str) : Str := s.takeWhile (· ≠ 0)

def snprintf (size : Nat) (text : Str) : Str := text.take (size - 1)

theorem zero_notMem_cstr (s : Str) : 0 ∉ cstr s := fun h => by
  have := List.mem_takeWhile_imp h
  exact absurd rfl (of_decide_eq_true this)

theorem cstr_of_notMem {s : Str} (h : 0 ∉ s) : cstr s = s :=
  List.takeWhile_eq_self_iff.2 (fun _ hx => decide_eq_true (ne_of_mem_of_not_mem hx h))

theorem cstr_length_le (s : Str) : (cstr s).length ≤ s.length := (List.takeWhile_sublist _).length_le

theorem notMem_of_cstr_length {s : Str} (h : (cstr s).length = s.length) : 0 ∉ s := by
  have : cstr s = s := (List.takeWhile_prefix _).eq_of_length h
  exact this ▸ zero_notMem_cstr s

theorem take_of_fits {k : Nat} {text : Str} (h : text.length < k) : snprintf k text = text :=
  List.take_of_length_le (Nat.le_sub_one_of_lt h)

theorem fits_of_take {k : Nat} {text : Str} (hk : 0 < k) (h : snprintf k text = text) : text.length < k := by
  have := congrArg List.length h
  rw [snprintf, List.length_take] at this
  omega

/-! ## `stringtrim` and `get_basedir` -/

def isspace (c : UInt8) : Bool := c == 32 || (9 ≤ c && c ≤ 13)

def ltrim (s : Str) : Str := s.dropWhile isspace

def rtrim (s : Str) : Str := (s.reverse.dropWhile isspace).reverse

def stringtrim (s : Str) : Str := ltrim (rtrim s)

def slash : UInt8 := 47
def backslash : UInt8 := 92

/-- A byte `get_basedir` splits at: its `find_last_of("/\\")`. -/
def isSep (c : UInt8) : Bool := c == slash || c == backslash

/-- The string before its last separator, and the whole string when it has none (`substr(0, npos)`). -/
def getBasedir (str : Str) : Str :=
  match str.reverse.dropWhile (fun c => !isSep c) with
  | []         => str
  | _ :: front => front.reverse

theorem getBasedir_append (d n : Str) (c : UInt8) (hc : isSep c = true) (hn : ∀ x ∈ n, isSep x = false) :
    getBasedir (d ++ c :: n) = d := by
  unfold getBasedir
  have hdrop : (d ++ c :: n).reverse.dropWhile (fun x => !isSep x) = c :: d.reverse := by
    rw [List.reverse_append, List.reverse_cons, List.append_assoc]
    have hpos : ∀ x ∈ n.reverse, (!isSep x) = true := fun x hx => by simp [hn x (List.mem_reverse.1 hx)]
    rw [List.dropWhile_append_of_pos hpos, List.singleton_append, List.dropWhile_cons_of_neg (by simp [hc])]
  rw [hdrop]
  exact List.reverse_reverse d

theorem exists_last_sep : ∀ (n : Str), (∃ x ∈ n, isSep x = true) →
    ∃ a x b, n = a ++ x :: b ∧ isSep x = true ∧ ∀ y ∈ b, isSep y = false
  | [], h => by obtain ⟨x, hx, -⟩ := h; cases hx
  | y :: n, h => by
    by_cases hn : ∃ x ∈ n, isSep x = true
    · obtain ⟨a, x, b, rfl, hx, hb⟩ := exists_last_sep n hn
      exact ⟨y :: a, x, b, rfl, hx, hb⟩
    · have hnone : ∀ x ∈ n, isSep x = false := fun x hx => by
        cases hs : isSep x with
        | false => rfl
        | true => exact absurd ⟨x, hx, hs⟩ hn
      obtain ⟨x, hx, hs⟩ := h
      rcases List.mem_cons.1 hx with rfl | hx
      · exact ⟨[], x, n, rfl, hs, hnone⟩
      · rw [hnone x hx] at hs; cases hs

/-- **The base directory of `d/n` is `d` exactly when `n` holds no separator.** -/
theorem getBasedir_append_iff (d n : Str) (c : UInt8) (hc : isSep c = true) :
    getBasedir (d ++ c :: n) = d ↔ ∀ x ∈ n, isSep x = false := by
  refine ⟨fun h => ?_, getBasedir_append d n c hc⟩
  by_contra hn
  have hsep : ∃ x ∈ n, isSep x = true := by
    simp only [not_forall, Bool.not_eq_false] at hn
    obtain ⟨x, hx, hs⟩ := hn
    exact ⟨x, hx, hs⟩
  obtain ⟨a, x, b, rfl, hx, hb⟩ := exists_last_sep n hsep
  have e : d ++ c :: (a ++ x :: b) = (d ++ c :: a) ++ x :: b := by simp
  rw [e, getBasedir_append _ _ _ hx hb] at h
  have := congrArg List.length h
  simp at this

/-! ## `get_md5sum` and `get_checksum` -/

/-- The 16 bytes `md5_finish` leaves in `digest`. -/
structure Digest where
  bytes : Str
  len   : bytes.length = 16
deriving DecidableEq

def Digest.zero : Digest := ⟨List.replicate 16 0, rfl⟩

inductive Reading where
  | openFails
  | readFails
  | digest (d : Digest)
deriving DecidableEq

def hexDigit (n : Nat) : UInt8 := if n < 10 then UInt8.ofNat (48 + n) else UInt8.ofNat (87 + n)

/-- `"%02x"`. -/
def hexByte (b : UInt8) : Str := [hexDigit (b.toNat / 16), hexDigit (b.toNat % 16)]

def hexOutput (d : Digest) : Str := d.bytes.flatMap hexByte

/-- The return code and `checksum->str`: the string is empty on both failures. -/
def getMd5sum : Reading → Int × Str
  | .openFails => (-1, [])
  | .readFails => (-1, [])
  | .digest d  => (0, hexOutput d)

/-- The fields of `struct stat` that are read. -/
structure Stat where
  size : Int
  mode : Nat
  uid  : Nat
  gid  : Nat
deriving DecidableEq

def sIfmt (mode : Nat) : Nat := mode &&& 0o170000
def isReg (mode : Nat) : Bool := sIfmt mode == 0o100000
def isLnk (mode : Nat) : Bool := sIfmt mode == 0o120000
def isDirMode (mode : Nat) : Bool := sIfmt mode == 0o040000

abbrev Errno := Nat

def ENOENT : Errno := 2
def FILE_NOT_EXIST : Int := -100

/-- All a call of `get_checksum` sees of a file. -/
structure Observed where
  lstat   : Except Errno Stat
  reading : Reading
deriving DecidableEq

/-- The string `get_checksum` builds: `size:mode:uid:gid:digest`. -/
def checksumString (st : Stat) (sum : Str) : Str :=
  dec (toInt st.size) ++ ascii ":" ++ (dec (toInt st.mode) ++ ascii ":" ++ (dec (toInt st.uid) ++ ascii ":" ++
    (dec (toInt st.gid) ++ ascii ":" ++ sum)))

/-- The return code and the out parameter, which keeps the value passed in unless the file is a regular file or a link. -/
def getChecksum (ob : Observed) (checksum : Str) : Int × Str :=
  match ob.lstat with
  | .error e => if e = ENOENT then (FILE_NOT_EXIST, checksum) else (-1, checksum)
  | .ok st =>
    if isReg st.mode || isLnk st.mode then (0, checksumString st (getMd5sum ob.reading).2)
    else (-2, checksum)

def isSumByte (c : UInt8) : Bool := isDecByte c || c == 58 || (97 ≤ c && c ≤ 102)

theorem hexDigit_isSumByte (n : Nat) (h : n < 16) : isSumByte (hexDigit n) = true := by
  interval_cases n <;> decide

theorem mem_getMd5sum (r : Reading) (c : UInt8) (h : c ∈ (getMd5sum r).2) : isSumByte c = true := by
  cases r with
  | openFails => cases h
  | readFails => cases h
  | digest d =>
    simp only [getMd5sum, hexOutput, List.mem_flatMap, hexByte, List.mem_cons, List.not_mem_nil, or_false] at h
    obtain ⟨b, -, rfl | rfl⟩ := h
    · exact hexDigit_isSumByte _ (by have := b.toNat_lt; omega)
    · exact hexDigit_isSumByte _ (Nat.mod_lt _ (by decide))

theorem hexOutput_length (d : Digest) : (hexOutput d).length = 32 := by
  have hflat : ∀ bs : Str, (bs.flatMap hexByte).length = 2 * bs.length := fun bs => by
    induction bs with
    | nil => rfl
    | cons b bs ih =>
      have hb : (hexByte b).length = 2 := rfl
      rw [List.flatMap_cons, List.length_append, ih, List.length_cons, hb]
      omega
  rw [hexOutput, hflat, d.len]

theorem getMd5sum_length_le (r : Reading) : (getMd5sum r).2.length ≤ 32 := by
  cases r with
  | openFails => decide
  | readFails => decide
  | digest d => exact Nat.le_of_eq (hexOutput_length d)

/-- **What a checksum is made of.** -/
theorem mem_getChecksum (ob : Observed) (c : UInt8) (h : c ∈ (getChecksum ob []).2) : isSumByte c = true := by
  have hdec : ∀ x, c ∈ dec x → isSumByte c = true := fun x h => by simp [isSumByte, mem_dec x c h]
  have hcolon : c ∈ ascii ":" → isSumByte c = true := fun h => by rw [List.mem_singleton.1 h]; rfl
  unfold getChecksum at h
  split at h
  · split at h <;> cases h
  · split at h
    · simp only [checksumString, List.mem_append, or_assoc] at h
      rcases h with h | h | h | h | h | h | h | h | h
      · exact hdec _ h
      · exact hcolon h
      · exact hdec _ h
      · exact hcolon h
      · exact hdec _ h
      · exact hcolon h
      · exact hdec _ h
      · exact hcolon h
      · exact mem_getMd5sum _ c h
    · exact absurd h List.not_mem_nil

theorem getChecksum_length_le (ob : Observed) : (getChecksum ob []).2.length ≤ 80 := by
  unfold getChecksum
  split
  · split <;> exact Nat.zero_le _
  · split
    · rename_i st _ _
      have h1 := dec_toInt_length_le st.size
      have h2 := dec_toInt_length_le st.mode
      have h3 := dec_toInt_length_le st.uid
      have h4 := dec_toInt_length_le st.gid
      have h5 := getMd5sum_length_le ob.reading
      have hcolon : (ascii ":").length = 1 := rfl
      simp only [checksumString, List.length_append, hcolon]
      omega
    · exact Nat.zero_le _

/-- `lstat` finds a regular file or a link, and it reads to the end. -/
def Observed.readable (ob : Observed) : Bool :=
  match ob.lstat, ob.reading with
  | .ok st, .digest _ => isReg st.mode || isLnk st.mode
  | _, _              => false

def Observed.absent (ob : Observed) : Bool :=
  match ob.lstat with
  | .error e => e == ENOENT
  | .ok _    => false

theorem absent_of_readable (ob : Observed) (h : ob.readable = true) : ob.absent = false := by
  unfold Observed.readable at h
  unfold Observed.absent
  cases hl : ob.lstat with
  | error e => rw [hl] at h; cases h
  | ok st => rfl

theorem getChecksum_rc_eq (ob : Observed) (c : Str) : (getChecksum ob c).1 = FILE_NOT_EXIST ↔ ob.absent = true := by
  unfold getChecksum Observed.absent FILE_NOT_EXIST
  cases ob.lstat with
  | ok st =>
    simp only
    split <;> simp
  | error e =>
    simp only [beq_iff_eq]
    split <;> simp_all

end CheckRealtime
