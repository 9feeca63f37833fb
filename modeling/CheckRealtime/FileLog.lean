import CheckRealtime.Util
import Mathlib.Data.List.Flatten
import Mathlib.Logic.Function.Basic
/-!
# FileLog — `file_log.cpp`

The log and its rotation over a directory of files.  `total_size` adds up what `vsnprintf` returns for the text of a
message: the header of the entry is not in it, nor is what the file held when it was opened, nor the entry that is written
just after a rotation.  The rotated file takes its name from the second.  `rotation_iff` says when a run of calls loses
nothing and keeps to its bound all the same.
-/
namespace CheckRealtime.FileLog

/-! ## Lists -/

/-- Leaving out an element changes what a list is expanded to unless the element is expanded to nothing. -/
theorem flatMap_filter_ne_iff {α β : Type} [DecidableEq α] (f : α → List β) (t : α) (l : List α) :
    (l.filter (· ≠ t)).flatMap f = l.flatMap f ↔ (t ∈ l → f t = []) := by
  induction l with
  | nil => simp
  | cons a l ih =>
    by_cases ha : a = t
    · subst ha
      have hsub : ((l.filter (· ≠ a)).flatMap f).length ≤ (l.flatMap f).length :=
        (List.Sublist.flatMap List.filter_sublist f).length_le
      rw [List.filter_cons_of_neg (by simp), List.flatMap_cons]
      constructor
      · intro heq _
        have hlen := congrArg List.length heq
        rw [List.length_append] at hlen
        exact List.eq_nil_of_length_eq_zero (by omega)
      · intro hnil
        have hnil := hnil List.mem_cons_self
        rw [hnil, List.nil_append, ih.2 (fun _ => hnil)]
    · rw [List.filter_cons_of_pos (by simpa using ha), List.flatMap_cons, List.flatMap_cons, List.append_cancel_left_eq, ih,
        List.mem_cons, or_iff_right (Ne.symm ha)]

/-- What holds at first, and is kept by a step exactly when the step is good, holds all the way when every step is good. -/
theorem every_prefix_iff {α : Type} {P : List α → Prop} {good : List α → α → Prop} (h0 : P [])
    (hstep : ∀ pre a, P pre → (P (pre ++ [a]) ↔ good pre a)) (l : List α) :
    (∀ pre, pre <+: l → P pre) ↔ ∀ pre a, pre ++ [a] <+: l → good pre a := by
  constructor
  · intro h pre a hpre
    exact (hstep pre a (h pre ((List.prefix_append _ _).trans hpre))).1 (h _ hpre)
  · intro h pre
    induction pre using List.reverseRecOn with
    | nil => exact fun _ => h0
    | append_singleton pre a ih =>
      intro hpre
      exact (hstep pre a (ih ((List.prefix_append _ _).trans hpre))).2 (h pre a hpre)

/-! ## Files -/

/-- What is in the files, and the names given by `rename`, in the order of the last time each was given. -/
structure Files where
  content : Str → Option Str
  renamed : List Str

namespace Files

def get (d : Files) (name : Str) : Str := (d.content name).getD []

/-- An open for appending. -/
def create (d : Files) (name : Str) : Files := { d with content := Function.update d.content name (some (d.get name)) }

def append (d : Files) (name text : Str) : Files :=
  { d with content := Function.update d.content name (some (d.get name ++ text)) }

/-- `rename`, which replaces a file of the new name. -/
def rename (d : Files) (old new : Str) : Files :=
  match d.content old with
  | none      => d
  | some text =>
    { content := Function.update (Function.update d.content old none) new (some text)
      renamed := d.renamed.filter (· ≠ new) ++ [new] }

theorem get_append_self (d : Files) (name text : Str) : (d.append name text).get name = d.get name ++ text := by
  simp only [append, get, Function.update_self, Option.getD_some]

theorem get_append_of_ne (d : Files) {name other : Str} (h : other ≠ name) (text : Str) :
    (d.append name text).get other = d.get other := by
  simp only [append, get, Function.update_of_ne h]

end Files

/-! ## `Formater` -/

inductive LoggerLevel where
  | error
  | warning
  | info
  | debug
  | detail
deriving DecidableEq

/-- Its place in the enumeration. -/
def LoggerLevel.val : LoggerLevel → Nat
  | .error   => 0
  | .warning => 1
  | .info    => 2
  | .debug   => 3
  | .detail  => 4

def levelName : LoggerLevel → Str
  | .warning => ascii "WARNING"
  | .info    => ascii "INFO"
  | .detail  => ascii "DETAIL"
  | .debug   => ascii "DEBUG"
  | .error   => ascii "ERROR"

def LOG_LEVEL_STRING_LENGTH : Nat := 10
def MAX_LOG_BUF_LENGTH : Nat := 4048

/-- The bound of `total_size`. -/
def maxSize : Nat := 1204 * 1204 * 10

/-- The arguments of a call, with the text that the format makes of them, what `strftime` leaves in `time_str`, and the
second that `time` returns while the mutex is held. -/
structure Args where
  file    : Str
  line    : Int
  text    : Str
  timeStr : Str
  now     : Int

/-- What `snprintf` returns: the length of the whole text, or a negative value where that is no `int`. -/
def printed (text : Str) : Int := if text.length < 2 ^ 31 then text.length else -1

/-- `"%s [%s] : %s/%d : "`. -/
def Args.header (a : Args) (level : LoggerLevel) : Str :=
  cstr a.timeStr ++ (ascii " [" ++ ((levelName level).take LOG_LEVEL_STRING_LENGTH ++ (ascii "] : " ++
    (cstr a.file ++ (ascii "/" ++ (dec a.line ++ ascii " : "))))))

/-- `buffer` after the two calls: the text is cut to what the header leaves. -/
def Args.buffer (a : Args) (level : LoggerLevel) : Str :=
  let buffer := snprintf MAX_LOG_BUF_LENGTH (a.header level)
  buffer ++ snprintf (MAX_LOG_BUF_LENGTH - buffer.length) a.text

structure Formater extends Files where
  fileName  : Str
  totalSize : Int
  isOpen    : Bool

namespace Formater

def openFile (f : Formater) (_file_name : Str) : Formater :=
  { f with toFiles := f.create _file_name, fileName := _file_name, isOpen := true }

/-- The name a file is rotated to. -/
def target (f : Formater) (now : Int) : Str := f.fileName ++ dec now

/-- What is done when `total_size` has passed its bound. -/
def rotate (f : Formater) (now : Int) : Formater :=
  openFile { f with toFiles := f.rename f.fileName (f.target now), totalSize := 0, isOpen := false } f.fileName

def write (f : Formater) (buffer : Str) : Formater := { f with toFiles := f.append f.fileName (cstr buffer) }

/-- The return code and what is left.  The part after the `CGuard` is what the mutex keeps apart. -/
def formater (f : Formater) (_level : LoggerLevel) (a : Args) : Int × Formater :=
  if printed (a.header _level) < 0 then (-1, f)
  else if printed a.text < 0 then (-1, f)
  else
    let f := { f with totalSize := f.totalSize + printed a.text }
    let f := if f.totalSize > (maxSize : Int) then f.rotate a.now else f
    if f.isOpen then (0, f.write (a.buffer _level)) else (-1, f)

end Formater

/-- `logger` and `cur_level`. -/
structure Logger extends Formater where
  curLevel : LoggerLevel

/-- `init_log`, with `total_size` as the constructor leaves it. -/
def initLog (content : Str → Option Str) (_file_name : Str) (_level : LoggerLevel) : Logger :=
  { toFormater := Formater.openFile ⟨⟨content, []⟩, [], 0, false⟩ _file_name, curLevel := _level }

namespace Logger

def log (_level : LoggerLevel) (l : Logger) (a : Args) : Int × Logger :=
  if _level.val > l.curLevel.val then (0, l)
  else ((l.formater _level a).1, { l with toFormater := (l.formater _level a).2 })

def detail : Logger → Args → Int × Logger := log .detail
def debug : Logger → Args → Int × Logger := log .debug
def info : Logger → Args → Int × Logger := log .info
def warning : Logger → Args → Int × Logger := log .warning
def error : Logger → Args → Int × Logger := log .error

end Logger

/-- A call of the function of its level. -/
structure LogCall extends Args where
  level : LoggerLevel

def Logger.call (l : Logger) (c : LogCall) : Logger :=
  match c.level with
  | .detail  => (l.detail c.toArgs).2
  | .debug   => (l.debug c.toArgs).2
  | .info    => (l.info c.toArgs).2
  | .warning => (l.warning c.toArgs).2
  | .error   => (l.error c.toArgs).2

/-- The calls, in the order in which they get the mutex. -/
def Logger.run (l : Logger) (calls : List LogCall) : Logger := calls.foldl Logger.call l

/-! ## Entries -/

/-- The call is let through and both of its parts are printed. -/
def LogCall.Logged (c : LogCall) (curLevel : LoggerLevel) : Prop :=
  c.level.val ≤ curLevel.val ∧ 0 ≤ printed (c.header c.level) ∧ 0 ≤ printed c.text

instance (c : LogCall) (curLevel : LoggerLevel) : Decidable (c.Logged curLevel) :=
  inferInstanceAs (Decidable (_ ∧ _ ∧ _))

def LogCall.entry (c : LogCall) : Str := cstr (c.buffer c.level)

def entries (curLevel : LoggerLevel) (calls : List LogCall) : List Str :=
  (calls.filter (·.Logged curLevel)).map LogCall.entry

/-- An entry, whichever it is, is shorter than the buffer. -/
theorem entry_length_lt (c : LogCall) : c.entry.length < MAX_LOG_BUF_LENGTH := by
  have hheader : (snprintf MAX_LOG_BUF_LENGTH (c.header c.level)).length ≤ MAX_LOG_BUF_LENGTH - 1 := List.length_take_le _ _
  have htext : ∀ n, (snprintf n c.text).length ≤ n - 1 := fun n => List.length_take_le _ _
  have hentry : c.entry.length ≤ (c.buffer c.level).length := cstr_length_le _
  have hbuffer : (c.buffer c.level).length ≤ MAX_LOG_BUF_LENGTH - 1 := by
    have := htext (MAX_LOG_BUF_LENGTH - (snprintf MAX_LOG_BUF_LENGTH (c.header c.level)).length)
    rw [Args.buffer, List.length_append]
    omega
  exact Nat.lt_of_le_of_lt (Nat.le_trans hentry hbuffer) (by decide)

/-! ## One call -/

/-- What an open log is like. -/
structure Opened (f : Formater) : Prop where
  isOpen     : f.isOpen = true
  there      : (f.content f.fileName).isSome = true
  notRenamed : f.fileName ∉ f.renamed

def Formater.active (f : Formater) : Str := f.get f.fileName

/-- What is in the files that the log was rotated to, in the order of rotation. -/
def Formater.rotated (f : Formater) : Str := f.renamed.flatMap f.get

section Formater

variable {f : Formater}

theorem target_ne (f : Formater) (now : Int) : f.target now ≠ f.fileName := fun h =>
  dec_ne_nil now (List.self_eq_append_right.1 h.symm)

theorem active_write (f : Formater) (buffer : Str) : (f.write buffer).active = f.active ++ cstr buffer :=
  Files.get_append_self _ _ _

theorem rotated_write (hf : Opened f) (buffer : Str) : (f.write buffer).rotated = f.rotated :=
  List.flatMap_congr (fun _ hname => Files.get_append_of_ne _ (ne_of_mem_of_not_mem hname hf.notRenamed) _)

theorem opened_write (hf : Opened f) (buffer : Str) : Opened (f.write buffer) :=
  ⟨hf.isOpen, by simp [Formater.write, Files.append], hf.notRenamed⟩

/-- A rotation moves the content of the file, over what the target held, and opens an empty one. -/
theorem rotate_eq (hf : Opened f) (now : Int) : f.rotate now =
    { f with
      content   := Function.update (Function.update (Function.update f.content f.fileName none) (f.target now)
        (some f.active)) f.fileName (some [])
      renamed   := f.renamed.filter (· ≠ f.target now) ++ [f.target now]
      totalSize := 0
      isOpen    := true } := by
  obtain ⟨text, htext⟩ := Option.isSome_iff_exists.1 hf.there
  have hactive : f.active = text := by
    rw [Formater.active, Files.get, htext]
    rfl
  have hempty : Function.update (Function.update f.content f.fileName none) (f.target now) (some text) f.fileName = none := by
    rw [Function.update_of_ne (target_ne f now).symm, Function.update_self]
  simp only [Formater.rotate, Formater.openFile, Files.rename, htext, Files.create, Files.get, hempty, hactive,
    Option.getD_none]

theorem content_rotate (hf : Opened f) (now : Int) : (f.rotate now).content =
    Function.update (Function.update (Function.update f.content f.fileName none) (f.target now) (some f.active)) f.fileName
      (some []) := by
  rw [rotate_eq hf]

theorem renamed_rotate (hf : Opened f) (now : Int) :
    (f.rotate now).renamed = f.renamed.filter (· ≠ f.target now) ++ [f.target now] := by
  rw [rotate_eq hf]

theorem opened_rotate (hf : Opened f) (now : Int) : Opened (f.rotate now) := by
  rw [rotate_eq hf]
  refine ⟨rfl, by simp, fun hmem => ?_⟩
  rcases List.mem_append.1 hmem with hmem | hmem
  · exact hf.notRenamed (List.mem_of_mem_filter hmem)
  · exact target_ne f now (List.mem_singleton.1 hmem).symm

theorem active_rotate (hf : Opened f) (now : Int) : (f.rotate now).active = [] := by
  rw [rotate_eq hf]
  simp [Formater.active, Files.get]

theorem rotated_rotate (hf : Opened f) (now : Int) :
    (f.rotate now).rotated = (f.renamed.filter (· ≠ f.target now)).flatMap f.get ++ f.active := by
  have hothers : ∀ name ∈ f.renamed.filter (· ≠ f.target now), (f.rotate now).get name = f.get name := fun name hname => by
    have hmem := List.mem_filter.1 hname
    have hne : name ≠ f.fileName := ne_of_mem_of_not_mem hmem.1 hf.notRenamed
    rw [Files.get, content_rotate hf, Function.update_of_ne hne, Function.update_of_ne (of_decide_eq_true hmem.2),
      Function.update_of_ne hne, Files.get]
  have htarget : (f.rotate now).get (f.target now) = f.active := by
    rw [Files.get, content_rotate hf, Function.update_of_ne (target_ne f now), Function.update_self]
    rfl
  rw [Formater.rotated, renamed_rotate hf, List.flatMap_append, List.flatMap_congr hothers, List.flatMap_singleton, htarget]

end Formater

section Logger

variable {l : Logger} {c : LogCall}

theorem call_eq (l : Logger) (c : LogCall) : l.call c = (Logger.log c.level l c.toArgs).2 := by
  obtain ⟨a, level⟩ := c
  cases level <;> rfl

theorem call_curLevel (l : Logger) (c : LogCall) : (l.call c).curLevel = l.curLevel := by
  rw [call_eq, Logger.log]
  split <;> rfl

theorem call_of_not_logged (h : ¬ c.Logged l.curLevel) : l.call c = l := by
  rw [call_eq, Logger.log]
  split
  · rfl
  · rename_i hlevel
    have hformater : (l.formater c.level c.toArgs).2 = l.toFormater := by
      rw [Formater.formater]
      split
      · rfl
      · rename_i hheader
        split
        · rfl
        · rename_i htext
          exact absurd ⟨by omega, by omega, by omega⟩ h
    rw [hformater]

/-- A call that does not rotate adds its entry to the file, and the length of its text to the counter. -/
theorem call_appends (hl : Opened l.toFormater) (h : c.Logged l.curLevel)
    (hsize : l.totalSize + printed c.text ≤ (maxSize : Int)) :
    Opened (l.call c).toFormater ∧ (l.call c).active = l.active ++ c.entry ∧ (l.call c).rotated = l.rotated ∧
      (l.call c).totalSize = l.totalSize + printed c.text ∧ (l.call c).renamed = l.renamed := by
  obtain ⟨hlevel, hheader, htext⟩ := h
  have hcounted : Opened ({ l.toFormater with totalSize := l.totalSize + printed c.text } : Formater) :=
    ⟨hl.isOpen, hl.there, hl.notRenamed⟩
  have hcall : (l.call c).toFormater =
      ({ l.toFormater with totalSize := l.totalSize + printed c.text } : Formater).write (c.buffer c.level) := by
    rw [call_eq, Logger.log, if_neg (by omega), Formater.formater, if_neg (by omega), if_neg (by omega)]
    simp only [if_neg (Int.not_lt.2 hsize), if_pos hl.isOpen]
  rw [hcall]
  exact ⟨opened_write hcounted _, active_write _ _, rotated_write hcounted _, rfl, rfl⟩

/-- A call that rotates leaves its entry alone in the file. -/
theorem call_rotates (hl : Opened l.toFormater) (h : c.Logged l.curLevel)
    (hsize : (maxSize : Int) < l.totalSize + printed c.text) :
    Opened (l.call c).toFormater ∧ (l.call c).active = c.entry ∧
      (l.call c).rotated = (l.renamed.filter (· ≠ l.target c.now)).flatMap l.get ++ l.active ∧
      (l.call c).renamed = l.renamed.filter (· ≠ l.target c.now) ++ [l.target c.now] := by
  obtain ⟨hlevel, hheader, htext⟩ := h
  have hcounted : Opened ({ l.toFormater with totalSize := l.totalSize + printed c.text } : Formater) :=
    ⟨hl.isOpen, hl.there, hl.notRenamed⟩
  have hrotated := opened_rotate hcounted c.now
  have hcall : (l.call c).toFormater =
      (({ l.toFormater with totalSize := l.totalSize + printed c.text } : Formater).rotate c.now).write
        (c.buffer c.level) := by
    rw [call_eq, Logger.log, if_neg (by omega), Formater.formater, if_neg (by omega), if_neg (by omega)]
    simp only [if_pos hsize, if_pos hrotated.isOpen]
  rw [hcall, active_write, active_rotate hcounted, rotated_write hrotated, rotated_rotate hcounted]
  exact ⟨opened_write hrotated _, rfl, rfl, renamed_rotate hcounted c.now⟩

/-! ## A run -/

/-- Every byte is there, in order, and the file is at most `room` above the bound. -/
structure Logger.Holds (l : Logger) (initial : Str) (written : List Str) (room : Nat) : Prop where
  kept    : l.rotated ++ l.active = initial ++ written.flatten
  bounded : l.active.length ≤ maxSize + room

/-- When the counter passes its bound, no file with something in it was rotated to the name of this second; when it does
not, the file is within the bound as well. -/
structure Logger.Keeps (l : Logger) (c : LogCall) : Prop where
  spares : c.Logged l.curLevel → (maxSize : Int) < l.totalSize + printed c.text →
    l.target c.now ∈ l.renamed → l.get (l.target c.now) = []
  fits   : c.Logged l.curLevel → l.totalSize + printed c.text ≤ (maxSize : Int) → l.active.length ≤ maxSize

theorem keeps_of_not_logged (h : ¬ c.Logged l.curLevel) : l.Keeps c := ⟨fun hc => absurd hc h, fun hc => absurd hc h⟩

theorem holds_call_iff (hl : Opened l.toFormater) {initial : Str} {written : List Str} {room : Nat}
    (h : l.Holds initial written room) (hc : c.Logged l.curLevel) :
    (l.call c).Holds initial (written ++ [c.entry]) c.entry.length ↔ l.Keeps c := by
  have hflatten : initial ++ (written ++ [c.entry]).flatten = l.rotated ++ l.active ++ c.entry := by
    rw [h.kept, List.flatten_append, List.flatten_singleton, List.append_assoc]
  by_cases hsize : (maxSize : Int) < l.totalSize + printed c.text
  · obtain ⟨-, hactive, hrotated, -⟩ := call_rotates hl hc hsize
    have hkept : (l.call c).rotated ++ (l.call c).active = initial ++ (written ++ [c.entry]).flatten ↔
        (l.target c.now ∈ l.renamed → l.get (l.target c.now) = []) := by
      rw [hactive, hrotated, hflatten, List.append_cancel_right_eq, List.append_cancel_right_eq, Formater.rotated,
        flatMap_filter_ne_iff]
    constructor
    · intro hholds
      exact ⟨fun _ _ => hkept.1 hholds.kept, fun _ hle => absurd hsize (Int.not_lt.2 hle)⟩
    · intro hkeeps
      refine ⟨hkept.2 (hkeeps.spares hc hsize), ?_⟩
      rw [hactive]
      exact Nat.le_add_left _ _
  · obtain ⟨-, hactive, hrotated, -⟩ := call_appends hl hc (Int.not_lt.1 hsize)
    have hbound : (l.call c).active.length ≤ maxSize + c.entry.length ↔ l.active.length ≤ maxSize := by
      rw [hactive, List.length_append]
      exact Nat.add_le_add_iff_right
    constructor
    · intro hholds
      exact ⟨fun _ hlt => absurd hlt hsize, fun _ _ => hbound.1 hholds.bounded⟩
    · intro hkeeps
      refine ⟨?_, hbound.2 (hkeeps.fits hc (Int.not_lt.1 hsize))⟩
      rw [hactive, hrotated, hflatten, List.append_assoc]

theorem opened_call (hl : Opened l.toFormater) (c : LogCall) : Opened (l.call c).toFormater := by
  by_cases hc : c.Logged l.curLevel
  · rcases lt_or_ge (maxSize : Int) (l.totalSize + printed c.text) with hsize | hsize
    · exact (call_rotates hl hc hsize).1
    · exact (call_appends hl hc hsize).1
  · rwa [call_of_not_logged hc]

end Logger

theorem run_append (l : Logger) (calls : List LogCall) (c : LogCall) : l.run (calls ++ [c]) = (l.run calls).call c :=
  List.foldl_concat _ _ _ _

theorem run_curLevel (l : Logger) (calls : List LogCall) : (l.run calls).curLevel = l.curLevel := by
  induction calls using List.reverseRecOn with
  | nil => rfl
  | append_singleton calls c ih => rw [run_append, call_curLevel, ih]

theorem opened_run {l : Logger} (hl : Opened l.toFormater) (calls : List LogCall) : Opened (l.run calls).toFormater := by
  induction calls using List.reverseRecOn with
  | nil => exact hl
  | append_singleton calls c ih => rw [run_append]; exact opened_call ih c

/-- **The file grows by whole entries, the counter by the lengths of their texts.** -/
theorem run_replicate {l : Logger} {c : LogCall} (hl : Opened l.toFormater) (hc : c.Logged l.curLevel) (n : Nat)
    (hsize : l.totalSize + n * printed c.text ≤ (maxSize : Int)) :
    (l.run (List.replicate n c)).active.length = l.active.length + n * c.entry.length ∧
      (l.run (List.replicate n c)).totalSize = l.totalSize + n * printed c.text ∧
      (l.run (List.replicate n c)).renamed = l.renamed := by
  induction n with
  | zero => exact ⟨by simp [Logger.run], by simp [Logger.run], rfl⟩
  | succ n ih =>
    have htext := hc.2.2
    have hcast : ((n + 1 : Nat) : Int) * printed c.text = n * printed c.text + printed c.text := by
      rw [Int.natCast_succ, Int.add_mul, Int.one_mul]
    obtain ⟨hactive, htotal, hnames⟩ := ih (by omega)
    have hrun := opened_run hl (List.replicate n c)
    have hlogged : c.Logged (l.run (List.replicate n c)).curLevel := by rwa [run_curLevel]
    obtain ⟨-, hgrown, -, hcounted, hrenamed⟩ := call_appends hrun hlogged (by rw [htotal]; omega)
    rw [List.replicate_succ', run_append, hgrown, hcounted, List.length_append, hactive, htotal]
    exact ⟨by rw [Nat.succ_mul, Nat.add_assoc], by omega, by rw [hrenamed, hnames]⟩

theorem opened_initLog (content : Str → Option Str) (name : Str) (level : LoggerLevel) :
    Opened (initLog content name level).toFormater :=
  ⟨rfl, by simp [initLog, Formater.openFile, Files.create], List.not_mem_nil⟩

theorem active_initLog (content : Str → Option Str) (name : Str) (level : LoggerLevel) :
    (initLog content name level).active = (content name).getD [] := by
  simp [initLog, Formater.openFile, Files.create, Formater.active, Files.get]

theorem entries_append (level : LoggerLevel) (calls : List LogCall) (c : LogCall) : entries level (calls ++ [c]) =
    if c.Logged level then entries level calls ++ [c.entry] else entries level calls := by
  rw [entries, List.filter_append, List.map_append]
  split
  · rename_i h
    rw [List.filter_cons_of_pos (by simpa using h)]
    rfl
  · rename_i h
    rw [List.filter_cons_of_neg (by simpa using h)]
    exact List.append_nil _

/-- The length of the entry written last. -/
def lastLength (written : List Str) : Nat := (written.getLastD []).length

/-- **In every state of a run the rotated files and the file hold all entries after what was there, and the file is above
its bound by no more than the last entry, exactly when every call keeps it so.** -/
theorem rotation_iff (content : Str → Option Str) (name : Str) (level : LoggerLevel) (calls : List LogCall)
    (hinitial : ((content name).getD []).length ≤ maxSize) :
    (∀ pre, pre <+: calls → ((initLog content name level).run pre).Holds ((content name).getD []) (entries level pre)
      (lastLength (entries level pre))) ↔
    ∀ pre c, pre ++ [c] <+: calls → ((initLog content name level).run pre).Keeps c := by
  have hstart : (initLog content name level).Holds ((content name).getD []) [] 0 := by
    refine ⟨?_, ?_⟩
    · show [] ++ (initLog content name level).active = _ ++ []
      rw [active_initLog, List.append_nil, List.nil_append]
    · rw [active_initLog]
      exact hinitial
  refine every_prefix_iff hstart (fun pre c hpre => ?_) calls
  have hlevel : ((initLog content name level).run pre).curLevel = level := run_curLevel _ _
  rw [run_append, entries_append]
  split
  · rename_i hc
    rw [← hlevel] at hc
    have hlast : lastLength (entries level pre ++ [c.entry]) = c.entry.length := by
      rw [lastLength, List.getLastD_concat]
    rw [hlast]
    exact holds_call_iff (opened_run (opened_initLog content name level) pre) hpre hc
  · rename_i hc
    rw [← hlevel] at hc
    rw [call_of_not_logged hc]
    exact iff_of_true hpre (keeps_of_not_logged hc)

def ALERT_LOG_PATH : Str := ascii "/var/log/zzhelper.log"

/-- The line of an alert. -/
def alertLine : LogCall where
  file    := ascii "monitor.cpp"
  line    := 219
  text    := ascii "File /etc/passwd have been changed!!\n"
  timeStr := ascii "2013/05/06 10:00:00"
  now     := 1367834400
  level   := .warning

/-- The same for a file with a path of 4089 bytes: more is counted of it than fits in the buffer. -/
def longLine : LogCall :=
  { alertLine with text := ascii "File /" ++ (List.replicate 4088 97 ++ ascii " have been changed!!\n") }

/-- What a log holds that was not empty, and takes that line over and over. -/
def longLog (n : Nat) : Logger :=
  (initLog (fun name => if name = ALERT_LOG_PATH then some (ascii "old\n") else none) ALERT_LOG_PATH .warning).run
    (List.replicate n longLine)

theorem longLine_logged : longLine.Logged .warning ∧ printed longLine.text = 4115 := by
  have hlen : longLine.text.length = 4115 := by
    have hfile : (ascii "File /").length = 6 := rfl
    have hchanged : (ascii " have been changed!!\n").length = 21 := rfl
    rw [longLine, List.length_append, List.length_append, List.length_replicate, hfile, hchanged]
  have htext : printed longLine.text = 4115 := by
    rw [printed, hlen]
    decide
  exact ⟨⟨Nat.le_refl _, (by decide +kernel : 0 ≤ printed (alertLine.header .warning)), by rw [htext]; decide⟩, htext⟩

/-- Up to there it is not rotated. -/
theorem longLog_spec (n : Nat) (hn : n ≤ 3522) : (longLog n).active.length ≤ maxSize ∧
    (longLog n).totalSize = n * 4115 ∧ (longLog n).renamed = [] := by
  obtain ⟨hlogged, htext⟩ := longLine_logged
  have hmax : maxSize = 14496160 := rfl
  obtain ⟨hactive, htotal, hnames⟩ := run_replicate
    (opened_initLog (fun name => if name = ALERT_LOG_PATH then some (ascii "old\n") else none) ALERT_LOG_PATH .warning)
    hlogged n (by
      rw [htext, hmax]
      show (0 : Int) + n * 4115 ≤ (14496160 : Nat)
      omega)
  have hinitial : ((if ALERT_LOG_PATH = ALERT_LOG_PATH then some (ascii "old\n") else none).getD []).length = 4 := rfl
  rw [active_initLog, hinitial] at hactive
  rw [htext] at htotal
  have hentry : longLine.entry.length ≤ 4047 := Nat.le_of_lt_succ (entry_length_lt longLine)
  have hgrown : n * longLine.entry.length ≤ 3522 * 4047 := Nat.mul_le_mul hn hentry
  refine ⟨?_, htotal.trans (Int.zero_add _), hnames⟩
  rw [longLog, hactive]
  omega

/-- The call that passes the bound rotates the file with all that it held, and its entry is in the new one. -/
theorem longLog_holds : (longLog 3523).Holds (ascii "old\n") (entries .warning (List.replicate 3523 longLine))
      (lastLength (entries .warning (List.replicate 3523 longLine))) ∧ (longLog 3523).renamed.length = 1 := by
  have hkeeps : ∀ pre c, pre ++ [c] <+: List.replicate 3523 longLine →
      ((initLog (fun name => if name = ALERT_LOG_PATH then some (ascii "old\n") else none) ALERT_LOG_PATH .warning).run
        pre).Keeps c := fun pre c hpre => by
    have hlen := hpre.length_le
    rw [List.length_append, List.length_singleton, List.length_replicate] at hlen
    have hall : ∀ x ∈ pre ++ [c], x = longLine := fun x hx => List.eq_of_mem_replicate (hpre.subset hx)
    have hpre : pre = List.replicate pre.length longLine :=
      List.eq_replicate_of_mem (fun x hx => hall x (List.mem_append_left _ hx))
    obtain ⟨hactive, -, hnames⟩ := longLog_spec pre.length (Nat.le_of_succ_le_succ hlen)
    rw [longLog, ← hpre] at hactive hnames
    refine ⟨fun _ _ hmem => ?_, fun _ _ => hactive⟩
    rw [hnames] at hmem
    cases hmem
  refine ⟨(rotation_iff (fun name => if name = ALERT_LOG_PATH then some (ascii "old\n") else none) ALERT_LOG_PATH .warning
    (List.replicate 3523 longLine) (by decide +kernel)).2 hkeeps _ (List.prefix_refl _), ?_⟩
  obtain ⟨hlogged, htext⟩ := longLine_logged
  obtain ⟨-, htotal, hnames⟩ := longLog_spec 3522 (Nat.le_refl _)
  have hopened : Opened (longLog 3522).toFormater := opened_run (opened_initLog _ _ _) _
  have hlevel : longLine.Logged (longLog 3522).curLevel := by rwa [longLog, run_curLevel]
  have hrotates := (call_rotates hopened hlevel (by rw [htotal, htext]; decide)).2.2.2
  rw [hnames] at hrotates
  have hlast : longLog 3523 = (longLog 3522).call longLine := by
    rw [longLog, longLog, List.replicate_succ', run_append]
  rw [hlast, hrotates]
  rfl

/-- As many alerts as the counter takes: 37 bytes of each are counted and 87 written, which is more than the bound and any
one entry. -/
theorem alertLines_overflow : ¬ ∀ content name level calls, ((content name).getD []).length ≤ maxSize →
    calls.Pairwise (fun a b => a.now ≤ b.now) →
    ((initLog content name level).run calls).Holds ((content name).getD []) (entries level calls) MAX_LOG_BUF_LENGTH :=
  fun h => by
  have hlogged : alertLine.Logged .warning := by decide +kernel
  have htext : printed alertLine.text = 37 := by decide +kernel
  have hentry : alertLine.entry.length = 87 := by decide +kernel
  have hgrown := (run_replicate (opened_initLog (fun _ => none) ALERT_LOG_PATH .warning) hlogged 391788
    (by rw [htext]; decide)).1
  have hbound := (h (fun _ => none) ALERT_LOG_PATH .warning (List.replicate 391788 alertLine) (Nat.zero_le _)
    (List.pairwise_replicate.2 (Or.inr (Int.le_refl _)))).bounded
  rw [hgrown, active_initLog, hentry] at hbound
  exact absurd hbound (by decide)

end CheckRealtime.FileLog
