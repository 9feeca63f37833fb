import CheckRealtime.ConfigWords
/-!
# ConfigRead — `config_read`, and the round trip

What `config_write` writes of a tree is read back to it (`read_write`), and a tree is one that some file gives exactly when
it is readable (`readable_iff`).
-/
namespace CheckRealtime.Libconfig

open Munch.Pattern (one seq star opt)
open Startup (isDigit)

/-- `__config_read`; `files` is what there is to include. -/
def read (files : Str → Option Str) (text : Str) : Option Setting := parse (tokens files text)

theorem readable_of_read {files : Str → Option Str} {text : Str} {t : Setting} (h : read files text = some t) : ReadableFile t := by
  obtain ⟨ms, hs, rfl⟩ := (parse_iff _ _).1 h
  obtain ⟨added, rfl, hm⟩ := readable_of_settings hs (tokens_ok files text)
  exact hm

/-! ## What a text begins with -/

/-- Blanks before it are a word of their own. -/
def Starts (s : Str) : Prop := ∃ d t, s = d :: t ∧ isBlank d = false ∧ d ≠ 64

theorem reads_gap {w s : Str} (hw : ∀ c ∈ w, isBlank c = true) (hs : Starts s) : Reads w [] s := by
  obtain ⟨d, t, rfl, hd, hat⟩ := hs
  cases w with
  | nil => exact Reads.nil _
  | cons c w => exact reads_blanks (List.cons_ne_nil c w) hw hd hat t

theorem reads_blank {s : Str} (hs : Starts s) : Reads [32] [] s := reads_gap (List.forall_mem_singleton.2 rfl) hs

theorem starts_of {p : UInt8 → Bool} (hp : p 32 = false ∧ p 9 = false ∧ p 64 = false) {c : UInt8} (hc : p c = true) (s : Str) :
    Starts (c :: s) := by
  refine ⟨c, s, rfl, ?_, fun h => ?_⟩
  · rw [Bool.eq_false_iff]
    intro hb
    rw [isBlank, Bool.or_eq_true, beq_iff_eq, beq_iff_eq] at hb
    obtain rfl | rfl := hb
    · rw [hp.1] at hc
      cases hc
    · rw [hp.2.1] at hc
      cases hc
  · rw [h, hp.2.2] at hc
    cases hc

theorem starts_of_number {c : UInt8} (hc : isNumberStart c = true) (s : Str) : Starts (c :: s) :=
  starts_of (p := isNumberStart) ⟨rfl, rfl, rfl⟩ hc s

theorem starts_of_name {name : Str} (hv : validateName name = true) (s : Str) : Starts (name ++ s) := by
  obtain ⟨c, w, rfl, hc, -⟩ := exists_of_validateName hv
  exact starts_of (p := isNameStart) ⟨rfl, rfl, rfl⟩ hc (w ++ s)

theorem starts_value (f : Str → Str) (w : Nat) {h depth : Nat} {v : Setting} (hv : Readable h (mapFloats f v)) (hd : 0 < depth)
    (s : Str) : Starts (writeValue f w depth v ++ s) := by
  have hdec : ∀ i t, Starts (dec i ++ t) := fun i t => by
    obtain ⟨c, u, hu, hc, -⟩ := dec_cons i
    rw [hu]
    exact starts_of_number (isNumberStart_of_dec hc) _
  cases v with
  | int i format =>
    cases format with
    | decimal => exact hdec i s
    | hex => exact starts_of_number (c := 48) rfl _
  | int64 i format =>
    cases format with
    | decimal =>
      rw [writeValue, List.append_assoc]
      exact hdec i _
    | hex => exact starts_of_number (c := 48) rfl _
  | float text =>
    rw [mapFloats, Readable] at hv
    obtain ⟨c, u, hu, hc⟩ := float_start hv.2
    rw [writeValue, hu]
    exact starts_of_number hc _
  | boolean b => cases b <;> exact ⟨_, _, rfl, rfl, by decide⟩
  | string sval => exact ⟨_, _, rfl, rfl, by decide⟩
  | list vs => exact ⟨_, _, rfl, rfl, by decide⟩
  | array vs => exact ⟨_, _, rfl, rfl, by decide⟩
  | group ms =>
    rw [writeValue, if_pos hd]
    exact ⟨_, _, rfl, rfl, by decide⟩

/-! ## What is written gives the tokens of the tree -/

/-- The indentation of a line. -/
def gap (tabWidth depth : Nat) : Str := if depth > 1 then indent depth tabWidth else []

theorem isBlank_gap (tabWidth depth : Nat) : ∀ c ∈ gap tabWidth depth, isBlank c = true := by
  unfold gap indent
  intro c hc
  split at hc
  · split at hc
    · rw [List.eq_of_mem_replicate hc]
      rfl
    · rw [List.eq_of_mem_replicate hc]
      rfl
  · cases hc

theorem writeSetting_eq {tabWidth depth : Nat} (hd : 0 < depth) (name : Str) (v : Setting) (value : Str) :
    writeSetting tabWidth depth (some name) v value = gap tabWidth depth ++
      (name ++ ([32] ++ ([if v.isGroup then 58 else 61] ++ ([32] ++ (value ++ ([59] ++ [10])))))) := by
  unfold writeSetting gap
  rw [if_pos hd]
  simp only [List.append_assoc]
  rfl

theorem reads_equals (v : Setting) (rest : Str) : Reads [if v.isGroup then 58 else 61] [.equals] rest := by
  split
  · exact reads_punct (ascii "=:") (by decide) rfl rfl rest
  · exact reads_punct (ascii "=:") (by decide) rfl rfl rest

theorem starts_equals (v : Setting) (s : Str) : Starts ((if v.isGroup then 58 else 61) :: s) := by
  refine ⟨_, s, rfl, ?_, ?_⟩
  · split <;> rfl
  · split <;> decide

mutual

theorem reads_value (f : Str → Str) (w : Nat) : ∀ {h depth : Nat} {v : Setting}, Readable h (mapFloats f v) → 0 < depth →
    ∀ {d : UInt8}, endsValue d = true → ∀ rest, Reads (writeValue f w depth v) (valueToks (mapFloats f v)) (d :: rest)
  | _, _, .boolean b, _, _, _, hend, rest => reads_boolean b hend rest
  | _, _, .int _ .decimal, hv, _, _, hend, rest => by
    rw [mapFloats, Readable] at hv
    exact reads_integer hv.2 hend rest
  | _, _, .int _ .hex, hv, _, _, hend, rest => by
    rw [mapFloats, Readable] at hv
    exact reads_hex hv.2 hend rest
  | _, _, .int64 _ .decimal, hv, _, _, hend, rest => by
    rw [mapFloats, Readable] at hv
    exact reads_integer64 hv.2 hend rest
  | _, _, .int64 _ .hex, hv, _, _, hend, rest => by
    rw [mapFloats, Readable] at hv
    exact reads_hex64 hv.2 hend rest
  | _, _, .float _, hv, _, _, hend, rest => by
    rw [mapFloats, Readable] at hv
    exact reads_float hv.2 hend rest
  | _, _, .string _, hv, _, _, _, rest => by
    rw [mapFloats, Readable] at hv
    exact reads_string hv.2 _
  | _, depth, .list vs, hv, _, d, _, rest => by
    rw [mapFloats, Readable] at hv
    have hstart : Starts (41 :: d :: rest) := ⟨_, _, rfl, rfl, by decide⟩
    obtain ⟨hs, helems⟩ := reads_elems f w hv.2 (Nat.succ_pos depth) hstart
    have hopen : ∀ s, Reads [40] [.listStart] s := reads_punct (ascii "(") (by decide) rfl rfl
    have hclose : Reads [41] [.listEnd] (d :: rest) := reads_punct (ascii ")") (by decide) rfl rfl _
    have hs : Starts ((writeElems f w (depth + 1) vs ++ [41]) ++ d :: rest) := by
      rw [List.append_assoc]
      exact hs
    exact ((hopen _).append (reads_blank hs)).append (helems.append hclose)
  | _, depth, .array vs, hv, _, d, _, rest => by
    rw [mapFloats, Readable] at hv
    have hstart : Starts (93 :: d :: rest) := ⟨_, _, rfl, rfl, by decide⟩
    obtain ⟨hs, helems⟩ := reads_elems f w hv.2.1 (Nat.succ_pos depth) hstart
    have hopen : ∀ s, Reads [91] [.arrayStart] s := reads_punct (ascii "[") (by decide) rfl rfl
    have hclose : Reads [93] [.arrayEnd] (d :: rest) := reads_punct (ascii "]") (by decide) rfl rfl _
    have hs : Starts ((writeElems f w (depth + 1) vs ++ [93]) ++ d :: rest) := by
      rw [List.append_assoc]
      exact hs
    exact ((hopen _).append (reads_blank hs)).append (helems.append hclose)
  | _, depth, .group ms, hv, hd, d, _, rest => by
    rw [mapFloats, Readable] at hv
    have hmembers := reads_members f w hv.2 (Nat.succ_pos depth)
    have hopen : ∀ s, Reads [123] [.groupStart] s := reads_punct (ascii "\x7b") (by decide) rfl rfl
    have hclose : Reads [125] [.groupEnd] (d :: rest) := reads_punct (ascii "\x7d") (by decide) rfl rfl _
    have hbegin : ∀ s, Reads ([10] ++ (gap w depth ++ ([123] ++ [10]))) [.groupStart] s := fun s =>
      (reads_newline _).append ((reads_gap (isBlank_gap w depth) ⟨_, _, rfl, rfl, by decide⟩).append
        ((hopen _).append (reads_newline s)))
    have hend : Reads (gap w depth ++ [125]) [.groupEnd] (d :: rest) :=
      (reads_gap (isBlank_gap w depth) ⟨_, _, rfl, rfl, by decide⟩).append hclose
    have htext : writeValue f w depth (.group ms) =
        ([10] ++ (gap w depth ++ ([123] ++ [10]))) ++ (writeMembers f w (depth + 1) ms ++ (gap w depth ++ [125])) := by
      rw [writeValue, if_pos hd, if_pos hd]
      rfl
    rw [htext]
    exact (hbegin _).append ((hmembers _).append hend)

theorem reads_elems (f : Str → Str) (w : Nat) : ∀ {h next depth : Nat} {vs : List Setting},
    ReadableElems h next (mapFloatsElems f vs) → 0 < depth → ∀ {rest : Str}, Starts rest →
    Starts (writeElems f w depth vs ++ rest) ∧ Reads (writeElems f w depth vs) (elemToks (mapFloatsElems f vs)) rest
  | _, _, _, [], _, _, rest, hs => ⟨hs, Reads.nil rest⟩
  | _, _, depth, [v], hv, hd, rest, hs => by
    rw [mapFloatsElems, ReadableElems] at hv
    have hvalue := reads_value f w hv.1 hd (d := 32) rfl rest
    refine ⟨?_, ?_⟩
    · rw [writeElems, List.append_assoc]
      exact starts_value f w hv.1 hd _
    · exact hvalue.append (reads_blank hs)
  | _, _, depth, v :: v' :: vs, hv, hd, rest, hs => by
    rw [mapFloatsElems, ReadableElems] at hv
    obtain ⟨hnext, hrest⟩ := reads_elems f w hv.2 hd hs
    have hcomma : ∀ s, Reads [44] [.comma] s := reads_punct (ascii ",") (by decide) rfl rfl
    have hvalue := reads_value f w hv.1 hd (d := 44) rfl (32 :: (writeElems f w depth (v' :: vs) ++ rest))
    refine ⟨?_, ?_⟩
    · rw [writeElems, List.append_assoc]
      exact starts_value f w hv.1 hd _
    · exact hvalue.append ((hcomma _).append ((reads_blank hnext).append hrest))

theorem reads_members (f : Str → Str) (w : Nat) : ∀ {h depth : Nat} {earlier ms : List (Str × Setting)},
    ReadableMembers h earlier (mapFloatsMembers f ms) → 0 < depth →
    ∀ rest, Reads (writeMembers f w depth ms) (memberToks (mapFloatsMembers f ms)) rest
  | _, _, _, [], _, _, rest => Reads.nil rest
  | _, depth, _, (name, v) :: ms, hm, hd, rest => by
    rw [mapFloatsMembers, ReadableMembers] at hm
    obtain ⟨ha, hb, -, hv, hm⟩ := hm
    have hname : validateName name = true := by
      rw [settingAdd, Bool.and_eq_true] at ha
      exact ha.1
    have hsemicolon : ∀ s, Reads [59] [.semicolon] s := reads_punct (ascii ";") (by decide) rfl rfl
    have hline : ∀ s, Reads (writeSetting w depth (some name) v (writeValue f w depth v))
        (.name name :: .equals :: (valueToks (mapFloats f v) ++ [.semicolon])) s := fun s => by
      rw [writeSetting_eq hd]
      refine (reads_gap (isBlank_gap w depth) ?_).append ((reads_name hname hb _).append ((reads_blank ?_).append
        ((reads_equals v _).append ((reads_blank ?_).append ((reads_value f w hv hd (d := 59) rfl (10 :: s)).append
          ((hsemicolon _).append (reads_newline s)))))))
      · rw [List.append_assoc]
        exact starts_of_name hname _
      · exact starts_equals v _
      · rw [List.append_assoc]
        exact starts_value f w hv hd _
    have h := (hline _).append (reads_members f w hm hd rest)
    rw [List.cons_append, List.cons_append, List.append_assoc] at h
    exact h

end

/-! ## The round trip -/

/-- The text of a readable tree is read back to it, as its floating point numbers were printed. -/
theorem read_write_of_readable (files : Str → Option Str) (printFloat : Str → Str) (tabWidth : Nat) {t : Setting}
    (h : ReadableFile (mapFloats printFloat t)) :
    read files (write printFloat tabWidth t) = some (mapFloats printFloat t) := by
  cases t with
  | group ms =>
    have hm : ReadableMembers 1 [] (mapFloatsMembers printFloat ms) := h
    have htext : write printFloat tabWidth (.group ms) = writeMembers printFloat tabWidth 1 ms := by
      unfold write writeSetting
      rw [writeValue]
      simp only [Nat.lt_irrefl, gt_iff_lt, Nat.not_lt_zero, if_false, List.nil_append, List.append_nil]
    have hreads := reads_members printFloat tabWidth hm Nat.one_pos []
    have hscan : ∀ file, (scan file (writeMembers printFloat tabWidth 1 ms) 0 true .initial []).toks =
        memberToks (mapFloatsMembers printFloat ms) := fun file => by
      obtain ⟨b, hb⟩ := hreads file true
      rw [List.append_nil] at hb
      rw [hb]
      exact List.append_nil _
    rw [read, htext, parse_iff]
    refine ⟨mapFloatsMembers printFloat ms, ?_, rfl⟩
    rw [tokens, show scanFile files MAX_INCLUDE_DEPTH (writeMembers printFloat tabWidth 1 ms) =
      scan _ (writeMembers printFloat tabWidth 1 ms) 0 true .initial [] from rfl, hscan]
    exact settings_memberToks hm
  | int | int64 | float | string | boolean | array | list => exact h.elim

/-! ## Printing floating point numbers leaves a tree readable -/

theorem mapFloatsElems_eq (f : Str → Str) : ∀ vs : List Setting, mapFloatsElems f vs = vs.map (mapFloats f)
  | [] => rfl
  | v :: vs => by rw [mapFloatsElems, mapFloatsElems_eq f vs, List.map_cons]

theorem mapFloatsMembers_eq (f : Str → Str) : ∀ ms : List (Str × Setting),
    mapFloatsMembers f ms = ms.map (fun m => (m.1, mapFloats f m.2))
  | [] => rfl
  | (name, v) :: ms => by rw [mapFloatsMembers, mapFloatsMembers_eq f ms, List.map_cons]

theorem typeOf_mapFloats (f : Str → Str) (v : Setting) : typeOf (mapFloats f v) = typeOf v := by
  cases v <;> rfl

theorem settingAdd_mapFloats (f : Str → Str) (ms : List (Str × Setting)) (name : Str) :
    settingAdd (mapFloatsMembers f ms) name = settingAdd ms name := by
  unfold settingAdd Setting.exists_ Setting.member
  simp only [mapFloatsMembers_eq, List.find?_map, Option.isSome_map]
  rfl

theorem nextHeight_mapFloats (f : Str → Str) (h : Nat) (ms : List (Str × Setting)) :
    nextHeight h (mapFloatsMembers f ms) = nextHeight h ms := by
  cases ms <;> rfl

mutual

theorem readable_mapFloats (f : Str → Str) : ∀ {h : Nat} {v : Setting}, Readable h v →
    (∀ x ∈ floats v, f x ∈ (pattern .float).language) → Readable h (mapFloats f v)
  | _, .int _ _, hv, _ => hv
  | _, .int64 _ _, hv, _ => hv
  | _, .string _, hv, _ => hv
  | _, .boolean _, hv, _ => hv
  | _, .float x, hv, hf => by
    rw [Readable] at hv
    rw [mapFloats, Readable]
    exact ⟨hv.1, hf x List.mem_cons_self⟩
  | _, .array vs, hv, hf => by
    rw [Readable] at hv
    rw [mapFloats, Readable]
    refine ⟨hv.1, readable_mapFloatsElems f hv.2.1 hf, ?_, ?_⟩
    · intro v hm
      rw [mapFloatsElems_eq] at hm
      obtain ⟨u, hu, rfl⟩ := List.mem_map.1 hm
      rw [isScalar, typeOf_mapFloats]
      exact hv.2.2.1 u hu
    · intro v hh u hu
      rw [mapFloatsElems_eq] at hh hu
      rw [List.head?_map] at hh
      obtain ⟨v', hv', rfl⟩ := Option.map_eq_some_iff.1 hh
      obtain ⟨u', hu', rfl⟩ := List.mem_map.1 hu
      rw [typeOf_mapFloats, typeOf_mapFloats]
      exact hv.2.2.2 v' hv' u' hu'
  | _, .list vs, hv, hf => by
    rw [Readable] at hv
    rw [mapFloats, Readable]
    exact ⟨hv.1, readable_mapFloatsElems f hv.2 hf⟩
  | _, .group ms, hv, hf => by
    rw [Readable] at hv
    rw [mapFloats, Readable]
    exact ⟨hv.1, readable_mapFloatsMembers f hv.2 hf⟩

theorem readable_mapFloatsElems (f : Str → Str) : ∀ {h next : Nat} {vs : List Setting}, ReadableElems h next vs →
    (∀ x ∈ floatsElems vs, f x ∈ (pattern .float).language) → ReadableElems h next (mapFloatsElems f vs)
  | _, _, [], _, _ => trivial
  | _, _, v :: vs, hv, hf => by
    rw [ReadableElems] at hv
    rw [mapFloatsElems, ReadableElems]
    rw [floatsElems, List.forall_mem_append] at hf
    exact ⟨readable_mapFloats f hv.1 hf.1, readable_mapFloatsElems f hv.2 hf.2⟩

theorem readable_mapFloatsMembers (f : Str → Str) : ∀ {h : Nat} {earlier ms : List (Str × Setting)},
    ReadableMembers h earlier ms → (∀ x ∈ floatsMembers ms, f x ∈ (pattern .float).language) →
    ReadableMembers h (mapFloatsMembers f earlier) (mapFloatsMembers f ms)
  | _, _, [], _, _ => trivial
  | h, earlier, (name, v) :: ms, hm, hf => by
    rw [ReadableMembers] at hm
    rw [floatsMembers, List.forall_mem_append] at hf
    obtain ⟨ha, hb, hfits, hv, hm⟩ := hm
    have hrest := readable_mapFloatsMembers f hm hf.2
    have hearlier : mapFloatsMembers f (earlier ++ [(name, v)]) = mapFloatsMembers f earlier ++ [(name, mapFloats f v)] := by
      rw [mapFloatsMembers_eq, mapFloatsMembers_eq, List.map_append]
      rfl
    rw [hearlier] at hrest
    rw [mapFloatsMembers, ReadableMembers, settingAdd_mapFloats, nextHeight_mapFloats]
    exact ⟨ha, hb, hfits, readable_mapFloats f hv hf.1, hrest⟩

end

mutual

theorem mapFloats_id : ∀ v : Setting, mapFloats id v = v
  | .int .. => rfl
  | .int64 .. => rfl
  | .float _ => rfl
  | .string _ => rfl
  | .boolean _ => rfl
  | .array vs => congrArg Setting.array (mapFloatsElems_id vs)
  | .list vs => congrArg Setting.list (mapFloatsElems_id vs)
  | .group ms => congrArg Setting.group (mapFloatsMembers_id ms)

theorem mapFloatsElems_id : ∀ vs : List Setting, mapFloatsElems id vs = vs
  | [] => rfl
  | v :: vs => by rw [mapFloatsElems, mapFloats_id v, mapFloatsElems_id vs]

theorem mapFloatsMembers_id : ∀ ms : List (Str × Setting), mapFloatsMembers id ms = ms
  | [] => rfl
  | (name, v) :: ms => by rw [mapFloatsMembers, mapFloats_id v, mapFloatsMembers_id ms]

end

/-! ## Floating point numbers as they are printed -/

def AllDigits (w : Str) : Prop := w ≠ [] ∧ ∀ c ∈ w, isDigit c = true

/-- What `%.*g` prints of a number that is finite. -/
def IsPrinted (fbuf : Str) : Prop := ∃ minus int frac exp : Str, fbuf = minus ++ (int ++ (frac ++ exp)) ∧
  (minus = [] ∨ minus = [45]) ∧ AllDigits int ∧ (frac = [] ∨ ∃ w, frac = 46 :: w ∧ AllDigits w) ∧
  (exp = [] ∨ ∃ s w, exp = 101 :: s :: w ∧ (s = 43 ∨ s = 45) ∧ AllDigits w)

theorem mem_digits {w : Str} (h : AllDigits w) : w ∈ digits.language := by
  obtain ⟨hne, hall⟩ := h
  cases w with
  | nil => exact absurd rfl hne
  | cons c w =>
    rw [List.forall_mem_cons] at hall
    exact Language.append_mem_mul (a := [c]) ⟨c, hall.1, rfl⟩ (Munch.Pattern.mem_star_one hall.2)

theorem mem_sign {w : Str} (h : w = [] ∨ w = [43] ∨ w = [45]) : w ∈ sign.language := by
  obtain rfl | rfl | rfl := h
  · exact Or.inr rfl
  · exact Or.inl ⟨43, rfl, rfl⟩
  · exact Or.inl ⟨45, rfl, rfl⟩

theorem decimal_mem {minus int w : Str} (hminus : minus = [] ∨ minus = [45]) (hint : AllDigits int)
    (hw : ∀ c ∈ w, isDigit c = true) : minus ++ (int ++ 46 :: w) ∈ (pattern .float).language := by
  have hsign := mem_sign (hminus.imp_right Or.inr)
  have hfrac : w ++ [] ∈ (seq (star (one isDigit)) (opt exponent)).language :=
    Language.append_mem_mul (Munch.Pattern.mem_star_one hw) (Or.inr rfl)
  rw [List.append_nil] at hfrac
  have hpoint : 46 :: w ∈ (seq (char 46) (seq (star (one isDigit)) (opt exponent))).language :=
    Language.append_mem_mul (a := [46]) ⟨46, rfl, rfl⟩ hfrac
  exact Or.inl (Language.append_mem_mul hsign (Language.append_mem_mul (Or.inl (Munch.Pattern.mem_star_one hint.2)) hpoint))

theorem exponent_mem {minus int frac w : Str} {s : UInt8} (hminus : minus = [] ∨ minus = [45]) (hint : AllDigits int)
    (hfrac : frac = [] ∨ ∃ w, frac = 46 :: w ∧ AllDigits w) (hs : s = 43 ∨ s = 45) (hw : AllDigits w) :
    minus ++ (int ++ (frac ++ 101 :: s :: w)) ∈ (pattern .float).language := by
  have hsign := mem_sign (hminus.imp_right Or.inr)
  have hfrac : frac ∈ (opt (seq (char 46) (star (one isDigit)))).language := by
    obtain rfl | ⟨u, rfl, hu⟩ := hfrac
    · exact Or.inr rfl
    · exact Or.inl (Language.append_mem_mul (a := [46]) ⟨46, rfl, rfl⟩ (Munch.Pattern.mem_star_one hu.2))
  have hs : [s] ∈ sign.language := mem_sign (Or.inr (hs.imp (congrArg (· :: [])) (congrArg (· :: []))))
  have hexp : 101 :: s :: w ∈ exponent.language :=
    Language.append_mem_mul (a := [101]) ⟨101, rfl, rfl⟩ (Language.append_mem_mul (a := [s]) hs (mem_digits hw))
  exact Or.inr (Language.append_mem_mul hsign (Language.append_mem_mul (mem_digits hint) (Language.append_mem_mul hfrac hexp)))

/-- Only the zeros after the point are dropped. -/
theorem dropZeros_append {x : Str} (hx : x ≠ []) (w : Str) :
    dropZeros (x ++ 46 :: w) = x ++ 46 :: (w.reverse.dropWhile (· == 48)).reverse := by
  cases x with
  | nil => exact absurd rfl hx
  | cons c x =>
    have hdrop : ((x ++ 46 :: w).reverse.dropWhile (· == 48)).reverse = x ++ 46 :: (w.reverse.dropWhile (· == 48)).reverse := by
      have hpoint : (46 :: x.reverse).dropWhile (· == 48) = 46 :: x.reverse := rfl
      rw [List.reverse_append, List.reverse_cons, List.append_assoc, List.singleton_append, List.dropWhile_append, hpoint]
      split
      · rename_i he
        rw [List.isEmpty_iff.1 he]
        simp
      · simp
    rw [List.cons_append, dropZeros, hdrop]
    cases x <;> rfl

theorem contains_digits {c : UInt8} (hc : isDigit c = false) {w : Str} (hw : ∀ d ∈ w, isDigit d = true) : c ∉ w := fun hm => by
  rw [hw c hm] at hc
  cases hc

/-- What the library makes of a printed number is read as a floating point number. -/
theorem floatText_mem {fbuf : Str} (h : IsPrinted fbuf) : floatText fbuf ∈ (pattern .float).language := by
  obtain ⟨minus, int, frac, exp, rfl, hminus, hint, hfrac, hexp⟩ := h
  obtain rfl | ⟨s, w, rfl, hs, hw⟩ := hexp
  · have hnone : ∀ c : UInt8, isDigit c = false → c ≠ 45 → c ∉ minus ++ int := fun c hc hm hmem => by
      obtain hmem | hmem := List.mem_append.1 hmem
      · obtain rfl | rfl := hminus
        · cases hmem
        · exact hm (List.mem_singleton.1 hmem)
      · exact contains_digits hc hint.2 hmem
    rw [List.append_nil]
    obtain rfl | ⟨w, rfl, hw⟩ := hfrac
    · rw [List.append_nil, floatText, if_neg, if_pos]
      · exact List.append_assoc minus int (ascii ".0") ▸ decimal_mem (w := [48]) hminus hint (List.all_eq_true.1 rfl)
      · rw [Bool.not_eq_true', ← Bool.not_eq_true, List.contains_iff_mem]
        exact hnone 46 rfl (by decide)
      · rw [List.contains_iff_mem]
        exact hnone 101 rfl (by decide)
    · have hne : minus ++ int ≠ [] := List.append_ne_nil_of_right_ne_nil _ hint.1
      rw [← List.append_assoc, floatText, if_neg, if_neg, dropZeros_append hne, List.append_assoc]
      · refine decimal_mem hminus hint (fun c hc => hw.2 c ?_)
        exact List.mem_reverse.1 ((List.dropWhile_sublist _).subset (List.mem_reverse.1 hc))
      · rw [Bool.not_eq_true', ← Bool.not_eq_true, not_not, List.contains_iff_mem]
        exact List.mem_append_right _ List.mem_cons_self
      · rw [List.contains_iff_mem, List.mem_append, List.mem_cons, not_or, not_or]
        exact ⟨hnone 101 rfl (by decide), by decide, contains_digits rfl hw.2⟩
  · rw [floatText, if_pos]
    · exact exponent_mem hminus hint hfrac hs hw
    · rw [List.contains_iff_mem]
      simp

/-- **What is written of a tree that was read is read back to it**, its floating point numbers as they were printed: whatever
`snprintf` prints of these, each being finite, and whatever is indented. -/
theorem read_write (files files' : Str → Option Str) (printed : Str → Str) (tabWidth : Nat) (text : Str) (t : Setting)
    (h : read files text = some t) (hf : ∀ x ∈ floats t, IsPrinted (printed x)) :
    read files' (write (fun x => floatText (printed x)) tabWidth t) = some (mapFloats (fun x => floatText (printed x)) t) := by
  have ht := readable_of_read h
  have hfloat : ∀ x ∈ floats t, floatText (printed x) ∈ (pattern .float).language := fun x hx => floatText_mem (hf x hx)
  refine read_write_of_readable files' _ tabWidth ?_
  cases t with
  | group ms => exact readable_mapFloatsMembers _ ht hfloat
  | int | int64 | float | string | boolean | array | list => exact ht.elim

/-- A floating point number, and a list of a string and a number. -/
def twoSettings : Setting :=
  .group [(ascii "delay", .float (ascii "1.50")), (ascii "paths", .list [.string (ascii "/etc\t\""), .int (-3) .hex])]

theorem twoSettings_readable : ReadableFile twoSettings := by
  have hfloat : ascii "1.50" ∈ (pattern .float).language := (Munch.Pattern.mem_iff _ _).2 rfl
  refine ⟨by decide, by decide, by decide, ⟨by decide, hfloat⟩, by decide, by decide, by decide, ⟨by decide, ?_⟩, trivial⟩
  exact ⟨⟨by decide, by decide⟩, ⟨by decide, by decide, by decide⟩, trivial⟩

theorem twoSettings_read : read (fun _ => none) (write id 2 twoSettings) = some twoSettings := by
  have h := twoSettings_readable
  rw [← mapFloats_id twoSettings] at h
  rw [read_write_of_readable (fun _ => none) id 2 h, mapFloats_id]

theorem isPrinted_short : IsPrinted (ascii "1.5") :=
  ⟨[], [49], [46, 53], [], rfl, Or.inl rfl, ⟨List.cons_ne_nil _ _, List.all_eq_true.1 rfl⟩,
    Or.inr ⟨[53], rfl, List.cons_ne_nil _ _, List.all_eq_true.1 rfl⟩, Or.inl rfl⟩

theorem twoSettings_read_write : read (fun _ => none) (write (fun _ => floatText (ascii "1.5")) 4 twoSettings) =
    some (mapFloats (fun _ => floatText (ascii "1.5")) twoSettings) :=
  read_write (fun _ => none) (fun _ => none) (fun _ => ascii "1.5") 4 (write id 2 twoSettings) twoSettings
    twoSettings_read (fun _ _ => isPrinted_short)

/-- **The trees that some file gives are the readable ones.** -/
theorem readable_iff (t : Setting) : (∃ files text, read files text = some t) ↔ ReadableFile t := by
  constructor
  · rintro ⟨files, text, h⟩
    exact readable_of_read h
  · intro h
    refine ⟨fun _ => none, write id 2 t, ?_⟩
    rw [← mapFloats_id t] at h
    rw [read_write_of_readable (fun _ => none) id 2 h, mapFloats_id]

end CheckRealtime.Libconfig
