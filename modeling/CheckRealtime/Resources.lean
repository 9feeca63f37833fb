import CheckRealtime.FileDb
import CheckRealtime.Mailman
import CheckRealtime.Startup
/-!
# Resources — what the operations leave open

`get_md5sum`, `get_pid`, `sendmail` and `FileDB::find` with the descriptors and statements they hold, for every outcome of
their system calls.  Each has a way out that skips the release (`givesBack_iff`), and over a run what is left open is
bounded exactly when only finitely many calls took one.
-/
namespace CheckRealtime.Resources

/-- The open descriptors, sockets among them, and the prepared statements that are not finalised. -/
structure Held where
  fds   : List Int
  stmts : List Nat

def Held.size (h : Held) : Nat := h.fds.length + h.stmts.length

/-! ## The operations -/

/-- `get_md5sum`, where `open` returns `fd`. -/
def getMd5sumFds (fd : Int) (reading : Reading) (fds : List Int) : (Int × Str) × List Int :=
  match reading with
  | .openFails => ((-1, []), fds)
  | .readFails => ((-1, []), fd :: fds)
  | .digest d  => ((0, hexOutput d), (fd :: fds).erase fd)

theorem getMd5sumFds_fst (fd : Int) (reading : Reading) (fds : List Int) :
    (getMd5sumFds fd reading fds).1 = getMd5sum reading := by
  cases reading <;> rfl

/-- What comes of opening and reading the pid file; an empty file reads as no bytes. -/
inductive PidRead where
  | openFails
  | readFails
  | bytes (content : Str)
deriving DecidableEq

/-- `get_pid`: the descriptor is closed only after a `read` that returned something. -/
def getPidFds (fd : Int) (pidRead : PidRead) (fds : List Int) : Option Int × List Int :=
  match pidRead with
  | .openFails     => (none, fds)
  | .readFails     => (none, fd :: fds)
  | .bytes content =>
    let pbuf := content.take 255
    if pbuf.length = 0 then (none, fd :: fds) else (some (Startup.atoi pbuf), (fd :: fds).erase fd)

theorem getPidFds_fst (fd : Int) (content : Str) (fds : List Int) :
    (getPidFds fd (.bytes content) fds).1 = Startup.getPid (some content) := by
  simp only [getPidFds, Startup.getPid]
  split <;> rfl

/-- What comes of `sqlite3_prepare_v2`, the first `sqlite3_step` and `sqlite3_column_text`: no statement, no row (or an
error), a row whose checksum is NULL, a row. -/
inductive Selected where
  | notPrepared
  | noRow
  | nullText
  | row (r : Row)

/-- `FileDB::find`, where the statement prepared is `res`: without a text it returns before `sqlite3_finalize`. -/
def findStmts (res : Nat) (selected : Selected) (stmts : List Nat) : Option Row × List Nat :=
  match selected with
  | .notPrepared => (none, stmts)
  | .noRow       => (none, res :: stmts)
  | .nullText    => (none, res :: stmts)
  | .row r       => (some r, (res :: stmts).erase res)

def Selected.row? : Selected → Option Row
  | .row r => some r
  | _      => none

/-- With what SQLite selects for its text, it answers as `fileDb` does. -/
theorem findStmts_fst {σ : Type} {S : Sqlite σ} {s : σ} {name stmt : Str} {selected : Selected}
    (htext : sprintf 512 (selectFormat name) = some stmt) (hselected : selected.row? = S.query s stmt) (res : Nat)
    (stmts : List Nat) : (findStmts res selected stmts).1 = ((fileDb S).find (some s) name).2 := by
  have hanswer : (findStmts res selected stmts).1 = selected.row? := by cases selected <;> rfl
  simp only [hanswer, hselected, fileDb, htext]

inductive Operation where
  | getMd5sum (fd : Int) (reading : Reading)
  | getPid (fd : Int) (pidRead : PidRead)
  | sendmail (m : Mailman) (now : Tm) (subject body : Str) (net : Network)
  | find (res : Nat) (selected : Selected)

def Operation.after : Operation → Held → Held
  | .getMd5sum fd reading, h            => { h with fds := (getMd5sumFds fd reading h.fds).2 }
  | .getPid fd pidRead, h               => { h with fds := (getPidFds fd pidRead h.fds).2 }
  | .sendmail m now subject body net, h =>
    { h with fds := (m.sendmail now subject body { net with sent := [], fds := h.fds }).link.fds }
  | .find res selected, h               => { h with stmts := (findStmts res selected h.stmts).2 }

/-- The way through the operation does not leave it between an acquisition and its release. -/
def Operation.Clean : Operation → Prop
  | .getMd5sum _ reading      => reading ≠ .readFails
  | .getPid _ pidRead         => pidRead ≠ .readFails ∧ pidRead ≠ .bytes []
  | .sendmail m _ _ _ net     => net.socket < 0 ∨ (m.Connects net ∧ m.answered net.recvs = m.codes.length)
  | .find _ selected          => selected = .notPrepared ∨ ∃ r, selected = .row r

/-! ## One call -/

/-- A call gives back everything, or leaves one thing open. -/
def Settles (clean : Prop) (before after : Held) : Prop := (clean ∧ after = before) ∨ (¬ clean ∧ after.size = before.size + 1)

theorem ends_iff (m : Mailman) (now : Tm) (subject body : Str) (recvs : List Str) :
    m.ends now subject body recvs = true ↔ m.answered recvs = m.codes.length := by
  rw [Mailman.ends, ← Dialogue.passed_eq_length_iff, Mailman.answered, script_codes, ← script_codes m now subject body,
    List.length_map]

/-- A dialogue that is broken off keeps its socket, and so does a connection that is not made. -/
theorem sendmail_fds (m : Mailman) (now : Tm) (subject body : Str) (net : Network) (fds : List Int) :
    (Operation.Clean (.sendmail m now subject body net) ∧
      (m.sendmail now subject body { net with sent := [], fds := fds }).link.fds = fds) ∨
    (¬ Operation.Clean (.sendmail m now subject body net) ∧
      (m.sendmail now subject body { net with sent := [], fds := fds }).link.fds = net.socket :: fds) := by
  by_cases hc : m.Connects net
  · obtain ⟨rs, error, hout, -⟩ := sendmail_spec (l := { net with sent := [], fds := fds }) hc now subject body
    have hsocket : ¬ net.socket < 0 := by have := hc.2.1; omega
    have hends := ends_iff m now subject body net.recvs
    rw [hout]
    by_cases he : m.ends now subject body net.recvs = true
    · exact Or.inl ⟨Or.inr ⟨hc, hends.1 he⟩, if_pos he⟩
    · refine Or.inr ⟨fun hclean => ?_, if_neg he⟩
      rcases hclean with hneg | ⟨-, hall⟩
      · exact hsocket hneg
      · exact he (hends.2 hall)
  · rw [sendmail_fails (l := { net with sent := [], fds := fds }) hc]
    by_cases hs : net.socket < 0
    · exact Or.inl ⟨Or.inl hs, congrArg Link.fds (if_pos hs)⟩
    · refine Or.inr ⟨fun hclean => ?_, congrArg Link.fds (if_neg hs)⟩
      rcases hclean with hneg | ⟨hc', -⟩
      · exact hs hneg
      · exact hc hc'

theorem after_settles (op : Operation) (h : Held) : Settles op.Clean h (op.after h) := by
  have hleak : ∀ fd : Int, (Held.mk (fd :: h.fds) h.stmts).size = h.size + 1 := fun fd => by
    simp only [Held.size, List.length_cons]
    omega
  cases op with
  | getMd5sum fd reading =>
    cases reading with
    | openFails => exact Or.inl ⟨by simp [Operation.Clean], rfl⟩
    | readFails => exact Or.inr ⟨by simp [Operation.Clean], hleak fd⟩
    | digest d => exact Or.inl ⟨by simp [Operation.Clean], by simp [Operation.after, getMd5sumFds]⟩
  | getPid fd pidRead =>
    cases pidRead with
    | openFails => exact Or.inl ⟨by simp [Operation.Clean], rfl⟩
    | readFails => exact Or.inr ⟨by simp [Operation.Clean], hleak fd⟩
    | bytes content =>
      cases content with
      | nil => exact Or.inr ⟨by simp [Operation.Clean], hleak fd⟩
      | cons c content => exact Or.inl ⟨by simp [Operation.Clean], by simp [Operation.after, getPidFds]⟩
  | sendmail m now subject body net =>
    rcases sendmail_fds m now subject body net h.fds with ⟨hclean, hfds⟩ | ⟨hleaks, hfds⟩
    · exact Or.inl ⟨hclean, by simp only [Operation.after, hfds]⟩
    · refine Or.inr ⟨hleaks, ?_⟩
      simp only [Operation.after, hfds]
      exact hleak net.socket
  | find res selected =>
    have hstmt : (Held.mk h.fds (res :: h.stmts)).size = h.size + 1 := by
      simp only [Held.size, List.length_cons]
      omega
    cases selected with
    | notPrepared => exact Or.inl ⟨Or.inl rfl, rfl⟩
    | noRow => exact Or.inr ⟨by simp [Operation.Clean], hstmt⟩
    | nullText => exact Or.inr ⟨by simp [Operation.Clean], hstmt⟩
    | row r => exact Or.inl ⟨Or.inr ⟨r, rfl⟩, by simp [Operation.after, findStmts]⟩

theorem after_eq_iff (op : Operation) (h : Held) : op.after h = h ↔ op.Clean := by
  rcases after_settles op h with ⟨hclean, hsame⟩ | ⟨hleak, hsize⟩
  · exact iff_of_true hsame hclean
  · refine iff_of_false (fun hsame => ?_) hleak
    rw [hsame] at hsize
    omega

/-! ## A run -/

section Count

variable {count : Nat → Nat} {keeps : Nat → Prop}

theorem count_monotone (hkeep : ∀ n, keeps n → count (n + 1) = count n)
    (hup : ∀ n, ¬ keeps n → count (n + 1) = count n + 1) : Monotone count := by
  refine monotone_nat_of_le_succ (fun n => ?_)
  by_cases hn : keeps n
  · rw [hkeep n hn]
  · rw [hup n hn]
    exact Nat.le_succ _

theorem count_unbounded (hkeep : ∀ n, keeps n → count (n + 1) = count n)
    (hup : ∀ n, ¬ keeps n → count (n + 1) = count n + 1) (hno : ∀ N, ∃ n, N ≤ n ∧ ¬ keeps n) : ∀ k, ∃ n, k ≤ count n
  | 0     => ⟨0, Nat.zero_le _⟩
  | k + 1 => by
    obtain ⟨N, hN⟩ := count_unbounded hkeep hup hno k
    obtain ⟨n, hle, hn⟩ := hno N
    have hmono : count N ≤ count n := count_monotone hkeep hup hle
    exact ⟨n + 1, by rw [hup n hn]; omega⟩

/-- A count that goes up by one at some steps is bounded when there are no such steps from some point on. -/
theorem bounded_iff_eventually (hkeep : ∀ n, keeps n → count (n + 1) = count n)
    (hup : ∀ n, ¬ keeps n → count (n + 1) = count n + 1) :
    (∃ bound, ∀ n, count n ≤ bound) ↔ ∃ N, ∀ n, N ≤ n → keeps n := by
  constructor
  · rintro ⟨bound, hbound⟩
    by_contra hnever
    have hno : ∀ N, ∃ n, N ≤ n ∧ ¬ keeps n := fun N => by
      by_contra hall
      exact hnever ⟨N, fun n hn => by_contra (fun hk => hall ⟨n, hn, hk⟩)⟩
    obtain ⟨n, hn⟩ := count_unbounded hkeep hup hno (bound + 1)
    have := hbound n
    omega
  · rintro ⟨N, hN⟩
    have hstill : ∀ n, N ≤ n → count n = count N := fun n hn => by
      induction n, hn using Nat.le_induction with
      | base => rfl
      | succ n hn ih => rw [hkeep n (hN n hn), ih]
    refine ⟨count N, fun n => ?_⟩
    rcases Nat.le_total n N with hn | hn
    · exact count_monotone hkeep hup hn
    · exact Nat.le_of_eq (hstill n hn)

end Count

/-- What is held after the first `n` of a run of calls. -/
def heldAfter (calls : Nat → Operation) (h : Held) : Nat → Held
  | 0     => h
  | n + 1 => (calls n).after (heldAfter calls h n)

/-- **A call gives back what it acquired exactly on its clean ways out, and what is open over a run stays bounded exactly
when only finitely many calls take another.** -/
theorem givesBack_iff (op : Operation) (h : Held) (calls : Nat → Operation) : (op.after h = h ↔ op.Clean) ∧
    ((∃ bound, ∀ n, (heldAfter calls h n).size ≤ bound) ↔ ∃ N, ∀ n, N ≤ n → (calls n).Clean) := by
  refine ⟨after_eq_iff op h, bounded_iff_eventually (fun n hclean => ?_) (fun n hleak => ?_)⟩
  · show ((calls n).after _).size = _
    rw [(after_eq_iff _ _).2 hclean]
  · rcases after_settles (calls n) (heldAfter calls h n) with ⟨hclean, -⟩ | ⟨-, hsize⟩
    · exact absurd hclean hleak
    · exact hsize

/-- A lookup of a file that has no row leaves its statement prepared. -/
theorem missingRow_leaks : ¬ ∀ op h, Operation.after op h = h := fun h => by
  have hsame := congrArg Held.stmts (h (.find 1 .noRow) ⟨[], []⟩)
  exact absurd hsame (by decide)

end CheckRealtime.Resources
