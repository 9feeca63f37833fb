import CheckRealtime.ConfigWrite
/-!
# ConfigWords — what the scanner makes of one word

For each kind of word a configuration is written in, the rule that is taken of it and how far, whatever follows that cannot go
on with it; and what holds of every token (`tokens_ok`).
-/
namespace CheckRealtime.Libconfig

open Munch (Pattern longest munch)
open Munch.Pattern (one seq alt star plus opt)
open Startup (isDigit atoi strtol)

theorem forall_byte {P : UInt8 → Prop} (h : ∀ n : Fin 256, P (UInt8.ofNat n)) (c : UInt8) : P c := by
  have hc := h ⟨c.toNat, c.toNat_lt⟩
  rwa [show UInt8.ofNat c.toNat = c from UInt8.ofNat_toNat] at hc

/-- The rules a text that begins with `c` can match. -/
def live (mode : Mode) (atBol : Bool) (c : UInt8) : List Rule := (rules mode atBol).filter (fun r => !Munch.dead c (pattern r))

theorem taken_eq {mode : Mode} {atBol : Bool} {c : UInt8} {s : Str} {r : Rule} {n : Nat}
    (h : munch pattern (live mode atBol c) (c :: s) = some (r, n)) : taken mode atBol (c :: s) = (r, n) := by
  rw [taken, Munch.munch_live, show (rules mode atBol).filter (fun r => !Munch.dead c (pattern r)) = live mode atBol c from rfl, h]
  rfl

/-! ## What is true of every character

The rules a character leaves are found by going through the 256 of them, once for all the lemmas below.
-/

/-- The characters that come after a value as it is written. -/
def endsValue (d : UInt8) : Bool := d == 59 || d == 44 || d == 32

def isNumberStart (c : UInt8) : Bool := isDigit c || c == 45 || c == 43 || c == 46

/-- The characters of a string that are written as they are. -/
def isPlain (c : UInt8) : Bool := 32 ≤ c && c != 34 && c != 92

/-- The rules left by a character of each kind. -/
theorem live_facts : ∀ c : UInt8,
    (isBlank c = true → ∀ b, live .initial b c = (if b then [.includeOpen] else []) ++ [.blanks, .garbage]) ∧
    (isNameStart c = true → ∀ b, live .initial b c =
      (if toLower c = 116 then [.boolean (ascii "true") true]
        else if toLower c = 102 then [.boolean (ascii "false") false] else []) ++ [.name, .garbage]) ∧
    (isDecByte c = true → ∀ b, live .initial b c =
      .float :: .integer :: .integer64 :: (if c = 48 then [.hex, .hex64, .garbage] else [.garbage])) ∧
    (isPlain c = true → ∀ b, live .string b c = [.chunk]) := forall_byte (by decide +kernel)

/-- What ends a value is in none of the rules left by the first character of a number. -/
theorem number_facts : ∀ c : UInt8,
    (isNumberStart c = true → ∀ b, ∀ r ∈ live .initial b c, r = .garbage ∨ ∀ e ∈ ascii ";, ", (pattern r).avoids e = true) ∧
    (Munch.dead c (pattern .float) = false → isNumberStart c = true ∧ ∀ b, (live .initial b c).head? = some .float) :=
  forall_byte (by decide +kernel)

/-- The digits are told apart by no pattern of numbers, at the start and after a sign or a digit. -/
theorem alike_facts : ∀ c : UInt8,
    (isDigit c = true → ∀ r ∈ [Rule.float, .integer, .integer64], (pattern r).alike c 48 = true ∧
      ((pattern r).deriv 48).alike c 48 = true ∧ ((pattern r).deriv 45).alike c 48 = true) ∧
    (isXdigit c = true → ∀ r ∈ [Rule.hex, .hex64], (((pattern r).deriv 48).deriv 120).alike c 48 = true ∧
      ((((pattern r).deriv 48).deriv 120).deriv 48).alike c 48 = true) := forall_byte (by decide +kernel)

theorem dead_facts : ∀ c : UInt8,
    (isBlank c = false → c ≠ 64 → Munch.dead c (pattern .includeOpen) = true) ∧
    (c ≠ 88 ∧ c ≠ 120 → ∀ r ∈ [Rule.hex, .hex64], Munch.dead c ((pattern r).deriv 48) = true) := forall_byte (by decide +kernel)

/-- An escape is a word of its own: no rule goes on after it, and the one taken means the character. -/
theorem escape_facts : ∀ c : UInt8, (isPlain c = true → escapeByte c = [c]) ∧
    (isPlain c = false → (escapeByte c).head? = some 92) ∧
    (c ≠ 0 → isPlain c = false →
      (∀ r ∈ rules .string false, ((escapeByte c).foldl (fun a c => a.deriv c) (pattern r)).settled = true) ∧
      (taken .string false (escapeByte c)).2 = (escapeByte c).length ∧
      ((taken .string false (escapeByte c)).1 = .escape ((escapeByte c).getD 1 0) c ∨
        (taken .string false (escapeByte c)).1 = .hexchar ∧ cstr [UInt8.ofNat (hexValue ((escapeByte c).drop 2))] = [c])) :=
  forall_byte (by decide +kernel)

theorem ne_newline {p : UInt8 → Bool} (h : p 10 = false) {c : UInt8} (hc : p c = true) : (c != 10) = true :=
  bne_iff_ne.2 (fun e => by rw [e, h] at hc; cases hc)

theorem isDigit_iff (c : UInt8) : isDigit c = true ↔ 48 ≤ c ∧ c ≤ 57 := by
  rw [isDigit, Bool.and_eq_true, decide_eq_true_eq, decide_eq_true_eq]

theorem isDecByte_iff (c : UInt8) : isDecByte c = true ↔ c = 45 ∨ isDigit c = true := by
  rw [isDecByte, Bool.or_eq_true, beq_iff_eq]
  rfl

theorem isNumberStart_of_dec {c : UInt8} (hc : isDecByte c = true) : isNumberStart c = true := by
  obtain rfl | hd := (isDecByte_iff c).1 hc
  · rfl
  · rw [isNumberStart, hd]
    rfl

theorem isNameChar_of_ends {d : UInt8} (hd : endsValue d = true) : isNameChar d = false := by
  rw [endsValue, Bool.or_eq_true, Bool.or_eq_true, beq_iff_eq, beq_iff_eq, beq_iff_eq] at hd
  obtain (rfl | rfl) | rfl := hd <;> rfl

/-! ## One step of `scan` -/

theorem scan_skip (file : Str → Option Lexed) (atBol : Bool) (mode : Mode) (string : Str) (rest : Str) : ∀ w : Str,
    scan file (w ++ rest) w.length atBol mode string = scan file rest 0 atBol mode string
  | [] => rfl
  | _ :: w => scan_skip file atBol mode string rest w

/-- A word that one rule takes whole. -/
theorem scan_go {mode mode' : Mode} {atBol : Bool} {string string' w rest : Str} {r : Rule} (hw : w ≠ [])
    (ht : taken mode atBol (w ++ rest) = (r, w.length)) (hc : r.context = 0) (ha : act mode string w r = .go mode' string')
    (file : Str → Option Lexed) : scan file (w ++ rest) 0 atBol mode string =
      scan file rest 0 (w.getLast? == some 10) mode' string' := by
  cases w with
  | nil => exact absurd rfl hw
  | cons c w =>
    have htake : (c :: (w ++ rest)).take ((c :: w).length - r.context) = c :: w := by
      rw [hc]
      exact List.take_left
    have ht : taken mode atBol (c :: (w ++ rest)) = (r, (c :: w).length) := ht
    rw [List.cons_append, scan, ht]
    simp only [htake, ha]
    exact scan_skip file _ mode' string' rest w

theorem scan_token {mode : Mode} {atBol : Bool} {string string' w rest : Str} {r : Rule} {t : Token} (hw : w ≠ [])
    (ht : taken mode atBol (w ++ rest) = (r, w.length)) (hc : r.context = 0) (ha : act mode string w r = .token t string')
    (file : Str → Option Lexed) : scan file (w ++ rest) 0 atBol mode string =
      (scan file rest 0 (w.getLast? == some 10) .initial string').after [t] := by
  cases w with
  | nil => exact absurd rfl hw
  | cons c w =>
    have htake : (c :: (w ++ rest)).take ((c :: w).length - r.context) = c :: w := by
      rw [hc]
      exact List.take_left
    have ht : taken mode atBol (c :: (w ++ rest)) = (r, (c :: w).length) := ht
    rw [List.cons_append, scan, ht]
    simp only [htake, ha]
    exact congrArg _ (scan_skip file _ .initial string' rest w)

/-! ## Words that give tokens -/

/-- The text `w` before `rest` is read as the tokens `ts`, between two words. -/
def Reads (w : Str) (ts : List Token) (rest : Str) : Prop :=
  ∀ (file : Str → Option Lexed) (atBol : Bool), ∃ atBol',
    scan file (w ++ rest) 0 atBol .initial [] = (scan file rest 0 atBol' .initial []).after ts

theorem Reads.nil (rest : Str) : Reads [] [] rest := fun _ atBol => ⟨atBol, rfl⟩

theorem Reads.append {w w' rest : Str} {ts ts' : List Token} (h : Reads w ts (w' ++ rest)) (h' : Reads w' ts' rest) :
    Reads (w ++ w') (ts ++ ts') rest := by
  intro file atBol
  obtain ⟨b, hb⟩ := h file atBol
  obtain ⟨b', hb'⟩ := h' file b
  refine ⟨b', ?_⟩
  rw [List.append_assoc, hb, hb']
  unfold Lexed.after
  rw [List.append_assoc]

theorem Reads.of_token {w rest : Str} {r : Rule} {t : Token} (hw : w ≠ [])
    (ht : ∀ atBol, taken .initial atBol (w ++ rest) = (r, w.length)) (hc : r.context = 0)
    (ha : act .initial [] w r = .token t []) : Reads w [t] rest :=
  fun file atBol => ⟨_, scan_token hw (ht atBol) hc ha file⟩

theorem Reads.of_go {w rest : Str} {r : Rule} (hw : w ≠ []) (ht : ∀ atBol, taken .initial atBol (w ++ rest) = (r, w.length))
    (hc : r.context = 0) (ha : act .initial [] w r = .go .initial []) : Reads w [] rest :=
  fun file atBol => ⟨_, scan_go hw (ht atBol) hc ha file⟩

/-- A character that is a token. -/
theorem reads_punct {c : UInt8} (chars : Str) {t : Token} (hl : ∀ atBol, live .initial atBol c = [.punct chars t, .garbage])
    (hc : chars.contains c = true) (hn : (c != 10) = true) (rest : Str) : Reads [c] [t] rest := by
  refine Reads.of_token (r := .punct chars t) (List.cons_ne_nil _ _) (fun atBol => taken_eq ?_) rfl rfl
  rw [hl]
  exact Munch.munch_le (Munch.longest_one hc rest) (Munch.munch_last (Munch.longest_one hn rest)) (Nat.le_refl 1)

theorem reads_newline (rest : Str) : Reads [10] [] rest := by
  refine Reads.of_go (r := .newline) (List.cons_ne_nil _ _) (fun atBol => taken_eq ?_) rfl rfl
  have hl : ∀ b, live .initial b 10 = [.newline] := by decide
  rw [hl]
  exact Munch.munch_last (Munch.longest_one rfl rest)

theorem includeOpen_blank {c : UInt8} (h : isBlank c = true) : (pattern .includeOpen).deriv c = pattern .includeOpen := by
  rw [isBlank, Bool.or_eq_true, beq_iff_eq, beq_iff_eq] at h
  obtain rfl | rfl := h
  · rfl
  · rfl

/-- Blanks, up to a character that is none and does not begin an `@include`. -/
theorem reads_blanks {w : Str} {d : UInt8} (hw : w ≠ []) (hb : ∀ c ∈ w, isBlank c = true) (hd : isBlank d = false) (hat : d ≠ 64)
    (rest : Str) : Reads w [] (d :: rest) := by
  cases w with
  | nil => exact absurd rfl hw
  | cons c w =>
    have hall := hb
    rw [List.forall_mem_cons] at hb
    refine Reads.of_go (r := .blanks) (List.cons_ne_nil _ _) (fun atBol => taken_eq ?_) rfl rfl
    have hblank : longest (pattern .blanks) (c :: (w ++ d :: rest)) = some (w.length + 1) := by
      have hstar := Munch.longest_star_one (s := d :: rest) hb.2 (fun e he => by cases he; exact hd)
      rw [Munch.longest_cons, show (pattern .blanks).deriv c = star (one isBlank) from Munch.Pattern.deriv_one_seq hb.1 _, hstar]
    have hgarbage : longest (pattern .garbage) (c :: (w ++ d :: rest)) = some 1 := by
      exact Munch.longest_one (ne_newline (p := isBlank) rfl hb.1) _
    have hopen : longest (pattern .includeOpen) (c :: (w ++ d :: rest)) = none := by
      have hstop : longest (pattern .includeOpen) (d :: rest) = none := Munch.longest_dead ((dead_facts d).1 hd hat) rest
      rw [show c :: (w ++ d :: rest) = (c :: w) ++ d :: rest from rfl,
        Munch.longest_append (fun e he => includeOpen_blank (hall e he)), hstop]
      rfl
    rw [(live_facts c).1 hb.1]
    have hrest : munch pattern [.blanks, .garbage] (c :: (w ++ d :: rest)) = some (.blanks, w.length + 1) := by
      exact Munch.munch_le hblank (Munch.munch_last hgarbage) (Nat.le_add_left 1 _)
    cases atBol with
    | false => exact hrest
    | true => exact (Munch.munch_none hopen _).trans hrest

/-! ## Names and booleans -/

/-- A word in any case is at the head, or it is not. -/
theorem longest_caseless : ∀ w s : Str, longest (caseless w) s = if w <+: s.map toLower then some w.length else none
  | [], s => by
    rw [if_pos List.nil_prefix]
    exact Munch.longest_empty s
  | x :: w, [] => (if_neg (fun h => by cases List.prefix_nil.1 h)).symm
  | x :: w, c :: s => by
    have hbegins : x :: w <+: (c :: s).map toLower ↔ toLower c = x ∧ w <+: s.map toLower := by
      rw [List.map_cons, List.cons_prefix_cons, eq_comm]
    rw [Munch.longest_cons, show caseless (x :: w) = seq (one (fun d => toLower d == x)) (caseless w) from rfl]
    by_cases hx : toLower c = x
    · rw [Munch.Pattern.deriv_one_seq (p := fun d => toLower d == x) (beq_iff_eq.2 hx), longest_caseless w s]
      by_cases hw : w <+: s.map toLower
      · rw [if_pos hw, if_pos (hbegins.2 ⟨hx, hw⟩)]
        rfl
      · rw [if_neg hw, if_neg (fun h => hw (hbegins.1 h).2)]
        rfl
    · rw [Munch.Pattern.deriv_one_seq_none (p := fun d => toLower d == x) (beq_eq_false_iff_ne.2 hx), Munch.longest_none,
        if_neg (fun h => hx (hbegins.1 h).1)]
      rfl

theorem prefix_of_notMem {α : Type} {d : α} : ∀ {w a b : List α}, w <+: a ++ d :: b → d ∉ w → w <+: a
  | [], _, _, _, _ => List.nil_prefix
  | x :: w, [], b, h, hd => absurd ((List.cons_prefix_cons.1 h).1 ▸ List.mem_cons_self) hd
  | x :: w, y :: a, b, h, hd => by
    obtain ⟨rfl, hw⟩ := List.cons_prefix_cons.1 (show x :: w <+: y :: (a ++ d :: b) from h)
    exact List.cons_prefix_cons.2 ⟨rfl, prefix_of_notMem hw (fun hm => hd (List.mem_cons_of_mem x hm))⟩

/-- A name that is not the word is longer than what it begins with of it. -/
theorem longest_caseless_lt {w name : Str} {d : UInt8} (hne : name.map toLower ≠ w) (hd : toLower d ∉ w) (rest : Str) :
    ∀ m, longest (caseless w) (name ++ d :: rest) = some m → m < name.length := by
  intro m hm
  rw [longest_caseless] at hm
  split at hm
  · rename_i h
    cases hm
    rw [List.map_append, List.map_cons] at h
    have hp := prefix_of_notMem h hd
    have hlen := hp.length_le
    rw [List.length_map] at hlen
    refine Nat.lt_of_le_of_ne hlen (fun he => hne ?_)
    exact (hp.eq_of_length (by rw [List.length_map, he])).symm
  · cases hm

theorem longest_name {c d : UInt8} {w : Str} (hc : isNameStart c = true) (hw : ∀ e ∈ w, isNameChar e = true)
    (hd : isNameChar d = false) (rest : Str) : longest (pattern .name) (c :: (w ++ d :: rest)) = some (w.length + 1) := by
  have hstar := Munch.longest_star_one (s := d :: rest) hw (fun e he => by cases he; exact hd)
  rw [Munch.longest_cons, show (pattern .name).deriv c = star (one isNameChar) from Munch.Pattern.deriv_one_seq hc _, hstar]

theorem munch_name {c d : UInt8} {w : Str} (hc : isNameStart c = true) (hw : ∀ e ∈ w, isNameChar e = true)
    (hd : isNameChar d = false) (rest : Str) : munch pattern [.name, .garbage] (c :: (w ++ d :: rest)) = some (.name, w.length + 1) :=
  Munch.munch_le (longest_name hc hw hd rest) (Munch.munch_last (Munch.longest_one (ne_newline (p := isNameStart) rfl hc) _))
    (Nat.le_add_left 1 _)

/-- `validateName`, by its characters. -/
theorem exists_of_validateName {name : Str} (h : validateName name = true) :
    ∃ c w, name = c :: w ∧ isNameStart c = true ∧ ∀ e ∈ w, isNameChar e = true := by
  cases name with
  | nil => cases h
  | cons c w =>
    rw [validateName, Bool.and_eq_true, List.all_eq_true] at h
    exact ⟨c, w, rfl, h.1, h.2⟩

theorem reads_name {name : Str} (hv : validateName name = true) (hb : isBooleanWord name = false) (rest : Str) :
    Reads name [.name name] (32 :: rest) := by
  obtain ⟨c, w, rfl, hc, hw⟩ := exists_of_validateName hv
  rw [isBooleanWord, Bool.or_eq_false_iff, beq_eq_false_iff_ne, beq_eq_false_iff_ne] at hb
  refine Reads.of_token (r := .name) (List.cons_ne_nil _ _) (fun atBol => taken_eq ?_) rfl rfl
  have hrest := munch_name hc hw (show isNameChar 32 = false by decide) rest
  have hbool : ∀ (word : Str) (b : Bool), (c :: w).map toLower ≠ word → toLower 32 ∉ word →
      munch pattern [.boolean word b, .name, .garbage] (c :: (w ++ 32 :: rest)) = some (.name, w.length + 1) :=
    fun word b hne hd => by
      have hlt := longest_caseless_lt hne hd rest
      cases hl : longest (pattern (.boolean word b)) (c :: (w ++ 32 :: rest)) with
      | none => exact (Munch.munch_none hl _).trans hrest
      | some m => exact Munch.munch_lt hl hrest (hlt m hl)
  rw [(live_facts c).2.1 hc]
  split
  · exact hbool (ascii "true") true hb.1 (by decide)
  · split
    · exact hbool (ascii "false") false hb.2 (by decide)
    · exact hrest

/-- The word of a boolean, which is a name as well: its rule comes first. -/
theorem reads_booleanWord {c d : UInt8} {w : Str} {b : Bool} (hl : ∀ atBol, live .initial atBol c = [.boolean (c :: w) b, .name, .garbage])
    (hlower : (c :: w).map toLower = c :: w) (hc : isNameStart c = true) (hw : ∀ e ∈ w, isNameChar e = true)
    (hd : endsValue d = true) (rest : Str) : Reads (c :: w) [.boolean b] (d :: rest) := by
  refine Reads.of_token (r := .boolean (c :: w) b) (List.cons_ne_nil _ _) (fun atBol => taken_eq ?_) rfl rfl
  have hword : longest (pattern (.boolean (c :: w) b)) (c :: (w ++ d :: rest)) = some (w.length + 1) := by
    rw [show pattern (.boolean (c :: w) b) = caseless (c :: w) from rfl, longest_caseless, if_pos]
    · rfl
    · rw [← List.cons_append, List.map_append, hlower]
      exact List.prefix_append _ _
  rw [hl]
  exact Munch.munch_le hword (munch_name hc hw (isNameChar_of_ends hd) rest) (Nat.le_refl _)

theorem reads_boolean (b : Bool) {d : UInt8} (hd : endsValue d = true) (rest : Str) :
    Reads (if b then ascii "true" else ascii "false") [.boolean b] (d :: rest) := by
  cases b with
  | true => exact reads_booleanWord ((live_facts 116).2.1 rfl) rfl rfl (List.all_eq_true.1 rfl) hd rest
  | false => exact reads_booleanWord ((live_facts 102).2.1 rfl) rfl rfl (List.all_eq_true.1 rfl) hd rest

/-! ## Numbers -/

/-- What ends a value is in no number. -/
theorem taken_number {c d : UInt8} (hc : isNumberStart c = true) (hd : endsValue d = true) (atBol : Bool) (w rest : Str) :
    taken .initial atBol (c :: (w ++ d :: rest)) = taken .initial atBol (c :: w) := by
  have hlive := (number_facts c).1 hc
  have hends : d ∈ ascii ";, " := by
    rw [endsValue, Bool.or_eq_true, Bool.or_eq_true, beq_iff_eq, beq_iff_eq, beq_iff_eq] at hd
    obtain (rfl | rfl) | rfl := hd <;> decide
  have hline := ne_newline (p := isNumberStart) rfl hc
  have hmunch : munch pattern (live .initial atBol c) (c :: (w ++ d :: rest)) = munch pattern (live .initial atBol c) (c :: w) := by
    refine Munch.munch_congr (fun r hr => ?_)
    obtain rfl | hr := hlive atBol r hr
    · exact (Munch.longest_one hline _).trans (Munch.longest_one hline _).symm
    · exact Munch.longest_of_avoids (hr d hends) (c :: w) rest
  unfold live at hmunch
  unfold taken
  rw [Munch.munch_live pattern c (w ++ d :: rest), Munch.munch_live pattern c w, hmunch]

/-- A pattern that reads on over a sign and digits, one as the other. -/
structure PassesDigits (p : Pattern UInt8) : Prop where
  notNullable : p.nullable = false ∧ (p.deriv 45).nullable = false
  first : ∀ c, isDigit c = true → p.deriv c = p.deriv 48
  more : ∀ c, isDigit c = true → (p.deriv 48).deriv c = p.deriv 48
  afterSign : ∀ c, isDigit c = true → (p.deriv 45).deriv c = p.deriv 48

theorem passes_of_alike {r : Rule} (hr : r ∈ [Rule.float, .integer, .integer64])
    (hn : (pattern r).nullable = false ∧ ((pattern r).deriv 45).nullable = false)
    (hm : ((pattern r).deriv 48).deriv 48 = (pattern r).deriv 48)
    (hs : ((pattern r).deriv 45).deriv 48 = (pattern r).deriv 48) : PassesDigits (pattern r) := by
  have ha := fun c hc => (alike_facts c).1 hc r hr
  exact ⟨hn, fun c hc => Pattern.deriv_of_alike (ha c hc).1, fun c hc => (Pattern.deriv_of_alike (ha c hc).2.1).trans hm,
    fun c hc => (Pattern.deriv_of_alike (ha c hc).2.2).trans hs⟩

theorem passes_float : PassesDigits (pattern .float) := passes_of_alike (by decide) ⟨rfl, rfl⟩ rfl rfl
theorem passes_integer : PassesDigits (pattern .integer) := passes_of_alike (by decide) ⟨rfl, rfl⟩ rfl rfl
theorem passes_integer64 : PassesDigits (pattern .integer64) := passes_of_alike (by decide) ⟨rfl, rfl⟩ rfl rfl

theorem longest_dec {p : Pattern UInt8} (hp : PassesDigits p) (i : Int) (s : Str) :
    longest p (dec i ++ s) = (longest (p.deriv 48) s).map (· + (dec i).length) := by
  have hdigit := Startup.isDigit_decNat i.natAbs
  have hmore : ∀ c ∈ decNat i.natAbs, (p.deriv 48).deriv c = p.deriv 48 := fun c hc => hp.more c (hdigit c hc)
  unfold dec
  split
  · rw [List.cons_append, Munch.longest_map hp.notNullable.1,
      Munch.longest_run hp.notNullable.2 (decNat_ne_nil _) (fun c hc => hp.afterSign c (hdigit c hc)) hmore, Option.map_map]
    rfl
  · exact Munch.longest_run hp.notNullable.1 (decNat_ne_nil _) (fun c hc => hp.first c (hdigit c hc)) hmore s

/-- No hexadecimal number is seen where there is no `x`. -/
theorem munch_noHex {c : UInt8} {t : Str} (hc : isDecByte c = true) (ht : ∀ e ∈ t, e ≠ 88 ∧ e ≠ 120) :
    munch pattern (if c = 48 then [.hex, .hex64, .garbage] else [.garbage]) (c :: t) = some (.garbage, 1) := by
  have hline := ne_newline (p := isDecByte) rfl hc
  have hgarbage : munch pattern [.garbage] (c :: t) = some (.garbage, 1) := Munch.munch_last (Munch.longest_one hline t)
  split
  · rename_i h0
    subst h0
    have hnone : ∀ r ∈ [Rule.hex, .hex64], (pattern r).nullable = false → longest ((pattern r).deriv 48) [] = none →
        longest (pattern r) (48 :: t) = none := fun r hr hn hnil => by
      rw [Munch.longest_map hn]
      cases t with
      | nil => rw [hnil]; rfl
      | cons e t => rw [Munch.longest_dead ((dead_facts e).2 (ht e List.mem_cons_self) r hr)]; rfl
    have hhex := hnone .hex (by decide) rfl rfl
    have hhex64 := hnone .hex64 (by decide) rfl rfl
    rw [Munch.munch_none hhex, Munch.munch_none hhex64, hgarbage]
  · exact hgarbage

theorem dec_cons (i : Int) : ∃ c w, dec i = c :: w ∧ isDecByte c = true ∧ ∀ e ∈ w, e ≠ 88 ∧ e ≠ 120 := by
  have hall := mem_dec i
  cases hd : dec i with
  | nil => exact absurd hd (dec_ne_nil i)
  | cons c w =>
    rw [hd] at hall
    refine ⟨c, w, rfl, hall c List.mem_cons_self, fun e he => ?_⟩
    have hdec := hall e (List.mem_cons_of_mem c he)
    refine ⟨fun h => ?_, fun h => ?_⟩
    · rw [h] at hdec
      cases hdec
    · rw [h] at hdec
      cases hdec

theorem taken_dec (i : Int) (atBol : Bool) : taken .initial atBol (dec i) = (.integer, (dec i).length) := by
  have hfloat := longest_dec passes_float i []
  have hint := longest_dec passes_integer i []
  have hint64 := longest_dec passes_integer64 i []
  rw [List.append_nil] at hfloat hint hint64
  obtain ⟨c, w, hd, hc, hw⟩ := dec_cons i
  rw [hd] at hfloat hint hint64 ⊢
  have hrest := (Munch.munch_none hint64 _).trans (munch_noHex hc hw)
  refine taken_eq ?_
  rw [(live_facts c).2.2.1 hc, Munch.munch_none hfloat]
  exact Munch.munch_le (hint.trans (congrArg some (Nat.zero_add _))) hrest (Nat.le_add_left 1 w.length)

theorem taken_dec64 (i : Int) (atBol : Bool) : taken .initial atBol (dec i ++ [76]) = (.integer64, (dec i ++ [76]).length) := by
  have hlength : (dec i ++ [76]).length = (dec i).length + 1 := List.length_append
  have hfloat := longest_dec passes_float i [76]
  have hint := longest_dec passes_integer i [76]
  have hint64 := longest_dec passes_integer64 i [76]
  obtain ⟨c, w, hd, hc, hw⟩ := dec_cons i
  rw [hlength]
  rw [hd, List.cons_append] at hfloat hint hint64 ⊢
  have hw' : ∀ e ∈ w ++ [76], e ≠ 88 ∧ e ≠ 120 := fun e he => by
    obtain he | he := List.mem_append.1 he
    · exact hw e he
    · rw [List.mem_singleton.1 he]
      decide
  refine taken_eq ?_
  rw [(live_facts c).2.2.1 hc, Munch.munch_none hfloat]
  have hrest := Munch.munch_le (hint64.trans (congrArg some (Nat.add_comm 1 _))) (munch_noHex hc hw') (Nat.le_add_left 1 _)
  exact Munch.munch_lt (hint.trans (congrArg some (Nat.zero_add _))) hrest (Nat.lt_succ_self _)

/-! ### Their values -/

theorem digits_append (n : Nat) {s : Str} (hs : ∀ c ∈ s.head?, isDigit c = false) : Startup.digits (decNat n ++ s) = n := by
  cases s with
  | nil => rw [List.append_nil, Startup.digits, List.takeWhile_eq_self_iff.2 (Startup.isDigit_decNat n), foldl_decNat]
  | cons c s => exact Startup.digits_decNat n c (hs c rfl) s

theorem notSign_of_digit {c : UInt8} (hc : isDigit c = true) : isspace c = false ∧ c ≠ 45 ∧ c ≠ 43 := by
  have hlow := UInt8.le_iff_toNat_le.1 ((isDigit_iff c).1 hc).1
  have hspace : isspace c = false := by
    rw [Bool.eq_false_iff]
    intro h
    rw [isspace, Bool.or_eq_true, Bool.and_eq_true, beq_iff_eq, decide_eq_true_eq, decide_eq_true_eq] at h
    obtain rfl | ⟨-, h⟩ := h
    · cases hc
    · exact absurd (Nat.le_trans hlow (UInt8.le_iff_toNat_le.1 h)) (by decide)
  refine ⟨hspace, fun h => ?_, fun h => ?_⟩
  · rw [h] at hc
    cases hc
  · rw [h] at hc
    cases hc

theorem strtol_dec {i : Int} (hi : FitsLong i) {s : Str} (hs : ∀ c ∈ s.head?, isDigit c = false) : strtol (dec i ++ s) = i := by
  have hread := digits_append i.natAbs hs
  unfold dec
  by_cases hneg : i < 0
  · have hspace : List.dropWhile isspace (45 :: (decNat i.natAbs ++ s)) = 45 :: (decNat i.natAbs ++ s) := rfl
    rw [if_pos hneg, List.cons_append, strtol, hspace]
    simp only [if_true, hread]
    obtain ⟨hlo, hhi⟩ := hi
    omega
  · rw [if_neg hneg]
    have hdigit := Startup.isDigit_decNat i.natAbs
    cases hd : decNat i.natAbs with
    | nil => exact absurd hd (decNat_ne_nil _)
    | cons c w =>
      rw [hd] at hread hdigit
      have hc := notSign_of_digit (hdigit c List.mem_cons_self)
      rw [strtol, List.cons_append, List.dropWhile_cons_of_neg (by rw [hc.1]; decide)]
      simp only [if_neg hc.2.1, if_neg hc.2.2]
      rw [← List.cons_append, hread]
      obtain ⟨hlo, hhi⟩ := hi
      omega

theorem atoi_dec {i : Int} (hi : FitsInt i) : atoi (dec i) = i := by
  have hlong : FitsLong i := by
    obtain ⟨hlo, hhi⟩ := hi
    constructor <;> omega
  have hvalue := strtol_dec hlong (s := []) (fun _ hc => by cases hc)
  rw [List.append_nil] at hvalue
  rw [atoi, hvalue, toInt_of_int hi]

/-! ### Hexadecimal numbers -/

theorem isXdigit_xchar {d : Nat} (h : d < 16) : isXdigit (xchar d) = true := by
  interval_cases d <;> rfl

theorem xdigit_xchar {d : Nat} (h : d < 16) : xdigit (xchar d) = d := by
  interval_cases d <;> rfl

theorem hexNat_of_lt {n : Nat} (h : n < 16) : hexNat n = [xchar n] := by
  rw [hexNat, Nat.toDigits_of_lt_base h]
  interval_cases n <;> rfl

theorem hexNat_of_le {n : Nat} (h : 16 ≤ n) : hexNat n = hexNat (n / 16) ++ [xchar (n % 16)] := by
  have hd : hexNat (n % 16) = [xchar (n % 16)] := hexNat_of_lt (Nat.mod_lt _ (by decide))
  rw [hexNat, Nat.toDigits_of_lt_base (Nat.mod_lt _ (by decide))] at hd
  rw [hexNat, Nat.toDigits_of_base_le (by decide) h, List.map_append, hd, hexNat]

theorem hexNat_ne_nil (n : Nat) : hexNat n ≠ [] := by
  rcases Nat.lt_or_ge n 16 with hn | hn
  · rw [hexNat_of_lt hn]
    exact List.cons_ne_nil _ _
  · rw [hexNat_of_le hn]
    exact List.append_ne_nil_of_right_ne_nil _ (List.cons_ne_nil _ _)

theorem isXdigit_hexNat (n : Nat) : ∀ c ∈ hexNat n, isXdigit c = true := by
  induction n using Nat.strongRecOn with
  | ind n ih =>
    rcases Nat.lt_or_ge n 16 with hn | hn
    · rw [hexNat_of_lt hn, List.forall_mem_singleton]
      exact isXdigit_xchar hn
    · rw [hexNat_of_le hn, List.forall_mem_append, List.forall_mem_singleton]
      exact ⟨ih (n / 16) (Nat.div_lt_self (by omega) (by decide)), isXdigit_xchar (Nat.mod_lt _ (by decide))⟩

theorem foldl_hexNat (n : Nat) : (hexNat n).foldl (fun n c => 16 * n + xdigit c) 0 = n := by
  induction n using Nat.strongRecOn with
  | ind n ih =>
    rcases Nat.lt_or_ge n 16 with hn | hn
    · rw [hexNat_of_lt hn, List.foldl_cons, List.foldl_nil, xdigit_xchar hn, Nat.mul_zero, Nat.zero_add]
    · rw [hexNat_of_le hn, List.foldl_append, ih (n / 16) (Nat.div_lt_self (by omega) (by decide)), List.foldl_cons,
        List.foldl_nil, xdigit_xchar (Nat.mod_lt _ (by decide))]
      omega

theorem hexValue_append (n : Nat) {s : Str} (hs : ∀ c ∈ s.head?, isXdigit c = false) : hexValue (hexNat n ++ s) = n := by
  have hs : s.takeWhile isXdigit = [] := by
    cases s with
    | nil => rfl
    | cons c s => exact List.takeWhile_cons_of_neg (by rw [hs c rfl]; decide)
  rw [hexValue, List.takeWhile_append_of_pos (isXdigit_hexNat n), hs, List.append_nil, foldl_hexNat]

/-- A pattern of hexadecimal numbers reads on over the digits. -/
theorem longest_hex {r : Rule} (hr : r ∈ [Rule.hex, .hex64]) {q : Pattern UInt8}
    (hn : (pattern r).nullable = false ∧ ((pattern r).deriv 48).nullable = false) (hq : ((pattern r).deriv 48).deriv 120 = q)
    (hqn : q.nullable = false) (hm : (q.deriv 48).deriv 48 = q.deriv 48) (n : Nat) (s : Str) :
    longest (pattern r) (48 :: 120 :: (hexNat n ++ s)) = (longest (q.deriv 48) s).map (· + ((hexNat n).length + 2)) := by
  have ha := fun c hc => hq ▸ (alike_facts c).2 hc r hr
  have hfirst : ∀ c ∈ hexNat n, q.deriv c = q.deriv 48 := fun c hc => Pattern.deriv_of_alike (ha c (isXdigit_hexNat n c hc)).1
  have hmore : ∀ c ∈ hexNat n, (q.deriv 48).deriv c = q.deriv 48 := fun c hc =>
    (Pattern.deriv_of_alike (ha c (isXdigit_hexNat n c hc)).2).trans hm
  rw [Munch.longest_map hn.1, Munch.longest_map hn.2, hq, Munch.longest_run hqn (hexNat_ne_nil n) hfirst hmore, Option.map_map,
    Option.map_map]
  rfl

theorem longest_hex32 (n : Nat) (s : Str) : longest (pattern .hex) (48 :: 120 :: (hexNat n ++ s)) =
    (longest ((((pattern .hex).deriv 48).deriv 120).deriv 48) s).map (· + ((hexNat n).length + 2)) :=
  longest_hex (by decide) ⟨rfl, rfl⟩ rfl rfl rfl n s

theorem longest_hex64 (n : Nat) (s : Str) : longest (pattern .hex64) (48 :: 120 :: (hexNat n ++ s)) =
    (longest ((((pattern .hex64).deriv 48).deriv 120).deriv 48) s).map (· + ((hexNat n).length + 2)) :=
  longest_hex (by decide) ⟨rfl, rfl⟩ rfl rfl rfl n s

/-- Of the patterns of decimal numbers only `integer` matches, and only the `0`. -/
theorem munch_hex {r : Rule} {t : Str} {n : Nat} (hr : munch pattern [.hex, .hex64, .garbage] (48 :: 120 :: t) = some (r, n))
    (hn : 1 < n) (atBol : Bool) : taken .initial atBol (48 :: 120 :: t) = (r, n) := by
  have hnone : ∀ r, (pattern r).nullable = false → Munch.dead 120 ((pattern r).deriv 48) = true →
      longest (pattern r) (48 :: 120 :: t) = none := fun r hr hd => by
    rw [Munch.longest_map hr, Munch.longest_dead hd]
    rfl
  have hint : longest (pattern .integer) (48 :: 120 :: t) = some 1 := by
    rw [Munch.longest_map rfl, Munch.longest_stop rfl]
    rfl
  refine taken_eq ?_
  rw [(live_facts 48).2.2.1 rfl, Munch.munch_none (hnone .float rfl rfl)]
  exact Munch.munch_lt hint ((Munch.munch_none (hnone .integer64 rfl rfl) _).trans hr) hn

theorem taken_hex (n : Nat) (atBol : Bool) : taken .initial atBol (48 :: 120 :: hexNat n) = (.hex, (hexNat n).length + 2) := by
  have hhex := longest_hex32 n []
  have hhex64 := longest_hex64 n []
  rw [List.append_nil] at hhex hhex64
  have hgarbage : munch pattern [.garbage] (48 :: 120 :: hexNat n) = some (.garbage, 1) :=
    Munch.munch_last (Munch.longest_one rfl _)
  have hrest := (Munch.munch_none hhex64 _).trans hgarbage
  exact munch_hex (Munch.munch_le (hhex.trans (congrArg some (Nat.zero_add _))) hrest (Nat.le_add_left 1 _)) (Nat.le_add_left 2 _) atBol

theorem taken_hex64 (n : Nat) (atBol : Bool) :
    taken .initial atBol (48 :: 120 :: (hexNat n ++ [76])) = (.hex64, (48 :: 120 :: (hexNat n ++ [76])).length) := by
  have hlength : (48 :: 120 :: (hexNat n ++ [76])).length = (hexNat n).length + 3 := by
    rw [List.length_cons, List.length_cons, List.length_append]
    rfl
  have hhex := longest_hex32 n [76]
  have hhex64 := longest_hex64 n [76]
  have hgarbage : munch pattern [.garbage] (48 :: 120 :: (hexNat n ++ [76])) = some (.garbage, 1) :=
    Munch.munch_last (Munch.longest_one rfl _)
  have hrest := Munch.munch_le (hhex64.trans (congrArg some (Nat.add_comm 1 _))) hgarbage (Nat.le_add_left 1 _)
  rw [hlength]
  exact munch_hex (Munch.munch_lt (hhex.trans (congrArg some (Nat.zero_add _))) hrest (Nat.lt_succ_self _)) (Nat.le_add_left 2 _) atBol

/-! ### Their values -/

theorem asUnsigned_lt (bits : Nat) (i : Int) : asUnsigned bits i < 2 ^ bits := by
  have hpos : (0 : Int) < 2 ^ bits := Int.pow_pos (by decide)
  have hlt := Int.emod_lt_of_pos i hpos
  have hcast : ((2 ^ bits : Nat) : Int) = 2 ^ bits := by push_cast; rfl
  have hnonneg := Int.emod_nonneg i hpos.ne'
  unfold asUnsigned
  omega

theorem strtoul_hexNat {n : Nat} (hn : n < 2 ^ 64) {s : Str} (hs : ∀ c ∈ s.head?, isXdigit c = false) :
    strtoul (48 :: 120 :: (hexNat n ++ s)) = n := by
  rw [strtoul, show (48 :: 120 :: (hexNat n ++ s)).drop 2 = hexNat n ++ s from rfl, hexValue_append n hs]
  omega

theorem asUnsigned_cast (bits : Nat) (i : Int) : (asUnsigned bits i : Int) = i % 2 ^ bits :=
  Int.toNat_of_nonneg (Int.emod_nonneg i (Int.pow_pos (by decide)).ne')

theorem toInt_hexNat {i : Int} (hi : FitsInt i) : toInt (strtoul (48 :: 120 :: hexNat (asUnsigned 32 i))) = i := by
  have hlt := asUnsigned_lt 32 i
  have hvalue := strtoul_hexNat (n := asUnsigned 32 i) (by omega) (s := []) (fun _ hc => by cases hc)
  rw [List.append_nil] at hvalue
  rw [hvalue, asUnsigned_cast, toInt, show (2 : Int) ^ 32 = ((2 ^ 32 : Nat) : Int) from rfl, Int.emod_bmod]
  exact toInt_of_int hi

theorem toLong_hexNat {i : Int} (hi : FitsLong i) :
    toLong (strtoul (48 :: 120 :: (hexNat (asUnsigned 64 i) ++ [76]))) = i := by
  rw [strtoul_hexNat (asUnsigned_lt 64 i) (fun c hc => by cases hc; rfl), asUnsigned_cast, toLong]
  obtain ⟨hlo, hhi⟩ := hi
  rw [show (2 : Int) ^ 64 = ((2 ^ 64 : Nat) : Int) from rfl, Int.emod_bmod]
  exact Int.bmod_eq_of_le (by omega) (by omega)

/-! ### As words -/

theorem reads_number {c d : UInt8} {w : Str} {r : Rule} {t : Token} (hc : isNumberStart c = true) (hd : endsValue d = true)
    (ht : ∀ atBol, taken .initial atBol (c :: w) = (r, (c :: w).length)) (hr : r.context = 0)
    (ha : act .initial [] (c :: w) r = .token t []) (rest : Str) : Reads (c :: w) [t] (d :: rest) :=
  Reads.of_token (List.cons_ne_nil c w) (fun atBol => (taken_number hc hd atBol w rest).trans (ht atBol)) hr ha

theorem reads_integer {i : Int} (hi : FitsInt i) {d : UInt8} (hd : endsValue d = true) (rest : Str) :
    Reads (dec i) [.integer i] (d :: rest) := by
  have ht := taken_dec i
  have hvalue : act .initial [] (dec i) .integer = .token (.integer i) [] := by rw [act, atoi_dec hi]
  obtain ⟨c, w, hw, hc, -⟩ := dec_cons i
  rw [hw] at ht hvalue ⊢
  exact reads_number (isNumberStart_of_dec hc) hd ht rfl hvalue rest

theorem reads_integer64 {i : Int} (hi : FitsLong i) {d : UInt8} (hd : endsValue d = true) (rest : Str) :
    Reads (dec i ++ [76]) [.integer64 i] (d :: rest) := by
  have ht := taken_dec64 i
  have hvalue : act .initial [] (dec i ++ [76]) .integer64 = .token (.integer64 i) [] := by
    rw [act, strtol_dec hi (fun e he => by cases he; rfl)]
  obtain ⟨c, w, hw, hc, -⟩ := dec_cons i
  rw [hw] at ht hvalue ⊢
  exact reads_number (isNumberStart_of_dec hc) hd ht rfl hvalue rest

theorem reads_hex {i : Int} (hi : FitsInt i) {d : UInt8} (hd : endsValue d = true) (rest : Str) :
    Reads (ascii "0x" ++ hexNat (asUnsigned 32 i)) [.hex i] (d :: rest) :=
  reads_number (c := 48) rfl hd (taken_hex _) rfl (congrArg (fun x => Act.token (.hex x) []) (toInt_hexNat hi)) rest

theorem reads_hex64 {i : Int} (hi : FitsLong i) {d : UInt8} (hd : endsValue d = true) (rest : Str) :
    Reads (ascii "0x" ++ (hexNat (asUnsigned 64 i) ++ [76])) [.hex64 i] (d :: rest) :=
  reads_number (c := 48) rfl hd (taken_hex64 _) rfl
    (congrArg (fun x => Act.token (.hex64 x) []) (toLong_hexNat hi)) rest

theorem float_live {c : UInt8} {w : Str} (ht : c :: w ∈ (pattern .float).language) : Munch.dead c (pattern .float) = false := by
  rw [Bool.eq_false_iff]
  intro hdead
  have hnone := Munch.longest_dead hdead w
  rw [Munch.longest_of_mem ht] at hnone
  cases hnone

theorem float_start {text : Str} (ht : text ∈ (pattern .float).language) : ∃ c w, text = c :: w ∧ isNumberStart c = true := by
  cases text with
  | nil => exact absurd ((Pattern.nullable_iff _).2 ht) (by decide)
  | cons c w => exact ⟨c, w, rfl, ((number_facts c).2 (float_live ht)).1⟩

/-- Where a floating point number is seen none of the other rules sees more. -/
theorem reads_float {text : Str} (ht : text ∈ (pattern .float).language) {d : UInt8} (hd : endsValue d = true) (rest : Str) :
    Reads text [.float text] (d :: rest) := by
  obtain ⟨c, w, rfl, hc⟩ := float_start ht
  have hhead := ((number_facts c).2 (float_live ht)).2
  refine reads_number (r := .float) hc hd (fun b => taken_eq ?_) rfl rfl rest
  obtain ⟨rs, hrs⟩ := List.head?_eq_some_iff.1 (hhead b)
  rw [hrs]
  exact Munch.munch_of_mem ht rs

/-! ## Strings -/

theorem isPlain_iff (c : UInt8) : isPlain c = true ↔ 32 ≤ c ∧ (c != 34 && c != 92) = true := by
  rw [isPlain, Bool.and_assoc, Bool.and_eq_true, decide_eq_true_eq]

/-- The text of the string `s` and its closing quote are read after `string`. -/
def ReadsString (s rest : Str) : Prop :=
  ∀ (file : Str → Option Lexed) (atBol : Bool) (string : Str), ∃ atBol',
    scan file (s.flatMap escapeByte ++ 34 :: rest) 0 atBol .string string =
      (scan file rest 0 atBol' .initial []).after [.string (string ++ s)]

theorem readsString_nil (rest : Str) : ReadsString [] rest := by
  intro file atBol string
  have hl : ∀ b, live .string b 34 = [.closeString] := by decide
  have ht : taken .string atBol ([34] ++ rest) = (.closeString, 1) := by
    refine taken_eq ?_
    rw [hl]
    exact Munch.munch_last (Munch.longest_one rfl rest)
  rw [List.append_nil]
  exact ⟨_, scan_token (w := [34]) (List.cons_ne_nil _ _) ht rfl rfl file⟩

/-- A word that stands for the characters `s`. -/
theorem readsString_word {w s t rest : Str} {r : Rule} (hs : s.flatMap escapeByte = w) (hw : w ≠ [])
    (ht : ∀ b, taken .string b (w ++ (t.flatMap escapeByte ++ 34 :: rest)) = (r, w.length)) (hc : r.context = 0)
    (ha : ∀ string, act .string string w r = .go .string (string ++ s)) (h : ReadsString t rest) : ReadsString (s ++ t) rest := by
  intro file atBol string
  obtain ⟨b, hb⟩ := h file (w.getLast? == some 10) (string ++ s)
  refine ⟨b, ?_⟩
  rw [List.flatMap_append, hs, List.append_assoc, scan_go hw (ht atBol) hc (ha string) file, hb, List.append_assoc]

theorem taken_chunk {w : Str} {d : UInt8} (hne : w ≠ []) (hw : ∀ c ∈ w, isPlain c = true) (hd : d = 34 ∨ d = 92) (b : Bool)
    (rest : Str) : taken .string b (w ++ d :: rest) = (.chunk, w.length) := by
  cases w with
  | nil => exact absurd rfl hne
  | cons c w =>
    have hl := (live_facts c).2.2.2 (hw c List.mem_cons_self) b
    have hend : ∀ e ∈ (d :: rest).head?, (e != 34 && e != 92) = false := fun e he => by
      cases he
      obtain rfl | rfl := hd <;> rfl
    rw [List.forall_mem_cons] at hw
    have hstar := Munch.longest_star_one (s := d :: rest) (fun e he => ((isPlain_iff e).1 (hw.2 e he)).2) hend
    have hrun : (pattern .chunk).deriv c = star (one (fun c => c != 34 && c != 92)) :=
      Pattern.deriv_one_seq (p := fun c => c != 34 && c != 92) ((isPlain_iff c).1 hw.1).2 _
    have hlong : longest (pattern .chunk) (c :: (w ++ d :: rest)) = some (w.length + 1) := by
      rw [Munch.longest_map rfl, hrun, hstar]
      rfl
    refine taken_eq ?_
    rw [hl]
    exact Munch.munch_last hlong

/-- A character that is escaped is read back, by the rule of its escape or by that of its code. -/
theorem taken_escape {c : UInt8} (h0 : c ≠ 0) (hc : isPlain c = false) (rest : Str) :
    ∃ r, (∀ b, taken .string b (escapeByte c ++ rest) = (r, (escapeByte c).length)) ∧ r.context = 0 ∧
      ∀ string, act .string string (escapeByte c) r = .go .string (string ++ [c]) := by
  obtain ⟨hsettled, hlen, hrule⟩ := (escape_facts c).2.2 h0 hc
  have ht : taken .string false (escapeByte c ++ rest) = taken .string false (escapeByte c) := by
    unfold taken
    rw [Munch.munch_congr (fun r hr => Munch.longest_of_settled rest (hsettled r hr))]
  refine ⟨(taken .string false (escapeByte c)).1, fun _ => ht.trans (Prod.ext rfl hlen), ?_⟩
  obtain hr | ⟨hr, hcode⟩ := hrule
  · rw [hr]
    exact ⟨rfl, fun _ => rfl⟩
  · rw [hr]
    exact ⟨rfl, fun string => congrArg (fun x => Act.go .string (string ++ x)) hcode⟩

theorem flatMap_of_plain : ∀ {w : Str}, (∀ c ∈ w, isPlain c = true) → w.flatMap escapeByte = w
  | [], _ => rfl
  | c :: w, hw => by
    rw [List.forall_mem_cons] at hw
    rw [List.flatMap_cons, (escape_facts c).1 hw.1, flatMap_of_plain hw.2]
    rfl

/-- A run of plain characters, up to an escape or the closing quote. -/
theorem readsString_plain {w u rest : Str} (hne : w ≠ []) (hw : ∀ c ∈ w, isPlain c = true)
    (hu : ∀ d ∈ u.head?, isPlain d = false) (h : ReadsString u rest) : ReadsString (w ++ u) rest := by
  have h0 : 0 ∉ w := fun hm => by cases hw 0 hm
  have hnext : ∃ d t, u.flatMap escapeByte ++ 34 :: rest = d :: t ∧ (d = 34 ∨ d = 92) := by
    cases u with
    | nil => exact ⟨34, rest, rfl, Or.inl rfl⟩
    | cons d u =>
      have hhead := (escape_facts d).2.1 (hu d rfl)
      obtain ⟨t, ht⟩ := List.head?_eq_some_iff.1 hhead
      exact ⟨92, t ++ (u.flatMap escapeByte ++ 34 :: rest), by rw [List.flatMap_cons, ht, List.append_assoc]; rfl, Or.inr rfl⟩
  obtain ⟨d, t, hnext, hd⟩ := hnext
  refine readsString_word (r := .chunk) (flatMap_of_plain hw) hne (fun b => ?_) rfl (fun string => ?_) h
  · rw [hnext]
    exact taken_chunk hne hw hd b t
  · rw [act, cstr_of_notMem h0]

/-- A string is scanned a run of plain characters or an escape at a time. -/
theorem readsString {s : Str} (h0 : 0 ∉ s) (rest : Str) : ReadsString s rest := by
  induction hn : s.length using Nat.strongRecOn generalizing s with
  | ind n ih =>
    cases s with
    | nil => exact readsString_nil rest
    | cons c t =>
      cases hc : isPlain c with
      | false =>
        rw [List.mem_cons, not_or] at h0
        have ht := ih t.length (by rw [← hn]; exact Nat.lt_succ_self _) h0.2 rfl
        obtain ⟨r, htaken, hr, ha⟩ := taken_escape (Ne.symm h0.1) hc (t.flatMap escapeByte ++ 34 :: rest)
        have hne : escapeByte c ≠ [] := fun he => by
          have hhead := (escape_facts c).2.1 hc
          rw [he] at hhead
          cases hhead
        exact readsString_word (s := [c]) (t := t) (List.append_nil _) hne htaken hr ha ht
      | true =>
        have hsplit := List.takeWhile_append_dropWhile (p := isPlain) (l := c :: t)
        have hne : (c :: t).takeWhile isPlain ≠ [] := by
          rw [List.takeWhile_cons_of_pos hc]
          exact List.cons_ne_nil _ _
        have hlength := congrArg List.length hsplit
        rw [List.length_append] at hlength
        have hpos := List.length_pos_iff.2 hne
        have hend : ∀ d ∈ ((c :: t).dropWhile isPlain).head?, isPlain d = false := fun d hd => by
          have hhead := List.head?_dropWhile_not isPlain (c :: t)
          rw [hd] at hhead
          exact hhead
        have hrest := ih ((c :: t).dropWhile isPlain).length (by omega)
          (fun hm => h0 ((List.dropWhile_sublist _).subset hm)) rfl
        rw [← hsplit]
        exact readsString_plain hne (fun d hd => List.mem_takeWhile_imp hd) hend hrest

theorem reads_string {s : Str} (h0 : 0 ∉ s) (rest : Str) :
    Reads (34 :: ((cstr s).flatMap escapeByte ++ [34])) [.string s] rest := by
  intro file atBol
  have hl : ∀ b, live .initial b 34 = [.begin (ascii "\"") .string, .garbage] := by decide
  have hopen : ∀ t, taken .initial atBol ([34] ++ t) = (.begin (ascii "\"") .string, 1) := fun t => by
    have hquote : longest (pattern (.begin (ascii "\"") .string)) (34 :: t) = some 1 :=
      Munch.longest_of_settled t (w := [34]) rfl
    refine taken_eq ?_
    rw [hl]
    exact Munch.munch_le hquote (Munch.munch_last (Munch.longest_one rfl t)) (Nat.le_refl 1)
  obtain ⟨b, hb⟩ := readsString h0 rest file false []
  refine ⟨b, ?_⟩
  rw [cstr_of_notMem h0]
  have ha : act .initial [] [34] (.begin (ascii "\"") .string) = .go .string [] := rfl
  have hgo := scan_go (List.cons_ne_nil 34 []) (hopen (s.flatMap escapeByte ++ 34 :: rest)) rfl ha file
  rw [show (34 :: (s.flatMap escapeByte ++ [34])) ++ rest = [34] ++ (s.flatMap escapeByte ++ 34 :: rest) by
    rw [List.cons_append, List.append_assoc]; rfl]
  exact hgo.trans hb

/-! ## What every token is -/

/-- The parts of a rule that go into a string or are a token. -/
def ruleOk : Rule → Bool
  | .escape _ meant => meant != 0
  | .punct _ token  => [Token.equals, .comma, .semicolon, .arrayStart, .arrayEnd, .listStart, .listEnd, .groupStart,
    .groupEnd].contains token
  | _               => true

theorem rules_ok (mode : Mode) (atBol : Bool) : ∀ r ∈ rules mode atBol, ruleOk r = true := by
  cases mode <;> revert atBol <;> decide

theorem prefix_take {s t : Str} (h : t <+: s) : s.take t.length = t := by
  obtain ⟨u, rfl⟩ := h
  exact List.take_left

/-- A name is not the word of a rule for booleans, which stands before that for names. -/
theorem name_of_taken {atBol : Bool} {s word : Str} {b : Bool} {n : Nat}
    (hm : munch pattern (rules .initial atBol) s = some (.name, n))
    (hr : ∃ pre post, rules .initial atBol = pre ++ .boolean word b :: post ∧ Rule.name ∉ pre) : (s.take n).map toLower ≠ word := by
  intro hw
  obtain ⟨pre, post, hr, hpre⟩ := hr
  have hlen := Munch.longest_le_length (Munch.munch_mem hm).2
  have hbegins : word <+: s.map toLower := by
    rw [← hw, List.map_take]
    exact List.take_prefix _ _
  have hcaseless : longest (pattern (.boolean word b)) s = some word.length := by
    rw [show pattern (.boolean word b) = caseless word from rfl, longest_caseless, if_pos hbegins]
  rw [hr] at hm
  have hlt := Munch.munch_before hm hpre (fun e => by cases e) _ hcaseless
  rw [← hw, List.length_map, List.length_take, Nat.min_eq_left hlen] at hlt
  exact absurd hlt (Nat.lt_irrefl n)

theorem isBooleanWord_of_taken {atBol : Bool} {s : Str} {n : Nat}
    (hm : munch pattern (rules .initial atBol) s = some (.name, n)) : isBooleanWord (s.take n) = false := by
  have htrue : ∃ pre post, rules .initial atBol = pre ++ .boolean (ascii "true") true :: post ∧ Rule.name ∉ pre := by
    cases atBol with
    | false => exact ⟨(rules .initial false).take 8, (rules .initial false).drop 9, rfl, by decide⟩
    | true => exact ⟨(rules .initial true).take 9, (rules .initial true).drop 10, rfl, by decide⟩
  have hfalse : ∃ pre post, rules .initial atBol = pre ++ .boolean (ascii "false") false :: post ∧ Rule.name ∉ pre := by
    cases atBol with
    | false => exact ⟨(rules .initial false).take 9, (rules .initial false).drop 10, rfl, by decide⟩
    | true => exact ⟨(rules .initial true).take 10, (rules .initial true).drop 11, rfl, by decide⟩
  rw [isBooleanWord, Bool.or_eq_false_iff, beq_eq_false_iff_ne, beq_eq_false_iff_ne]
  exact ⟨name_of_taken hm htrue, name_of_taken hm hfalse⟩

theorem fitsLong_strtol (s : Str) : FitsLong (strtol s) := by
  unfold strtol FitsLong
  simp only
  omega

theorem fitsLong_toLong (x : Int) : FitsLong (toLong x) :=
  ⟨Int.le_bmod (by decide), Int.bmod_lt (by decide)⟩

/-- What an action leaves. -/
def Act.Ok : Act → Prop
  | .go _ string    => 0 ∉ string
  | .token t string => t.Ok ∧ 0 ∉ string
  | .push _         => True

theorem act_ok {mode : Mode} {atBol : Bool} {string s : Str} {r : Rule} {n : Nat} (ht : taken mode atBol s = (r, n))
    (h0 : 0 ∉ string) : (act mode string (s.take (n - r.context)) r).Ok := by
  have happend : ∀ u : Str, 0 ∉ u → 0 ∉ string ++ u := fun u hu hm => (List.mem_append.1 hm).elim h0 hu
  unfold taken at ht
  cases hm : munch pattern (rules mode atBol) s with
  | none =>
    rw [hm] at ht
    cases ht
    exact h0
  | some m =>
    rw [hm] at ht
    cases (show m = (r, n) from ht)
    obtain ⟨hmem, hlong⟩ := Munch.munch_mem hm
    have hrule := rules_ok mode atBol r hmem
    cases r with
    | chunk => exact happend _ (zero_notMem_cstr _)
    | hexchar => exact happend _ (zero_notMem_cstr _)
    | escape written meant =>
      rw [ruleOk, bne_iff_ne] at hrule
      exact happend _ (fun h => hrule (List.mem_singleton.1 h).symm)
    | backslash => exact happend _ (by decide)
    | closeString => exact ⟨h0, List.not_mem_nil⟩
    | punct chars token =>
      refine ⟨?_, h0⟩
      cases token <;> trivial
    | integer => exact ⟨toInt_range _, h0⟩
    | hex => exact ⟨toInt_range _, h0⟩
    | integer64 => exact ⟨fitsLong_strtol _, h0⟩
    | hex64 => exact ⟨fitsLong_toLong _, h0⟩
    | float =>
      refine ⟨?_, h0⟩
      have hspec := Munch.longest_spec s (pattern .float)
      rw [hlong] at hspec
      obtain ⟨⟨t, hbegins, rfl, hl⟩, -⟩ := hspec
      exact (prefix_take hbegins).symm ▸ hl
    | name =>
      refine ⟨?_, h0⟩
      cases mode with
      | initial => exact isBooleanWord_of_taken hm
      | _ => exact absurd hmem (by cases atBol <;> decide)
    | boolean | garbage => exact ⟨trivial, h0⟩
    | closeInclude => exact trivial
    | _ => exact h0

def Lexed.Ok (l : Lexed) : Prop := (∀ t ∈ l.toks, t.Ok) ∧ 0 ∉ l.string

theorem Lexed.Ok.after {ts : List Token} {l : Lexed} (hts : ∀ t ∈ ts, t.Ok) (hl : l.Ok) : (l.after ts).Ok :=
  ⟨List.forall_mem_append.2 ⟨hts, hl.1⟩, hl.2⟩

theorem scan_ok {file : Str → Option Lexed} (hfile : ∀ name l, file name = some l → l.Ok) : ∀ (s : Str) (skip : Nat) (atBol : Bool)
    (mode : Mode) (string : Str), 0 ∉ string → (scan file s skip atBol mode string).Ok
  | [], _, _, _, _, h0 => ⟨fun _ ht => absurd ht List.not_mem_nil, h0⟩
  | _ :: s, skip + 1, atBol, mode, string, h0 => scan_ok hfile s skip atBol mode string h0
  | c :: s, 0, atBol, mode, string, h0 => by
    have hact := act_ok (r := (taken mode atBol (c :: s)).1) (n := (taken mode atBol (c :: s)).2) rfl h0
    rw [scan]
    simp only
    split
    · rename_i e
      rw [e] at hact
      exact scan_ok hfile s _ _ _ _ hact
    · rename_i e
      rw [e] at hact
      refine (scan_ok hfile s _ _ _ _ hact.2).after (List.forall_mem_singleton.2 hact.1)
    · split
      · exact ⟨List.forall_mem_singleton.2 trivial, List.not_mem_nil⟩
      · rename_i lexed e
        have hl := hfile _ lexed e
        split
        · exact hl
        · exact (scan_ok hfile s _ _ _ _ hl.2).after hl.1

theorem scanFile_ok (files : Str → Option Str) : ∀ (room : Nat) (text : Str), (scanFile files room text).Ok
  | 0, text => scan_ok (fun _ _ h => by cases h) text 0 true .initial [] List.not_mem_nil
  | room + 1, text => scan_ok (fun name l h => by
      obtain ⟨t, -, rfl⟩ := Option.map_eq_some_iff.1 h
      exact scanFile_ok files room t) text 0 true .initial [] List.not_mem_nil

theorem tokens_ok (files : Str → Option Str) (text : Str) : ∀ t ∈ tokens files text, t.Ok :=
  (scanFile_ok files MAX_INCLUDE_DEPTH text).1

end CheckRealtime.Libconfig
