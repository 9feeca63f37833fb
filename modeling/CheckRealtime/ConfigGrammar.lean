import CheckRealtime.ConfigScanner
/-!
# ConfigGrammar — `grammar.y` of libconfig, and the checks `libconfig.c` makes as a file is read

The grammar with its actions as relations between tokens and settings (`IsValue`, `IsSettings`), and a parser by recursive
descent; `parse_iff`: the parser finds exactly what the grammar derives.

The parser `bison` makes keeps a stack that does not grow beyond `YYMAXDEPTH`: every production carries the height of the
stack it is found at.
-/
namespace CheckRealtime.Libconfig

def YYMAXDEPTH : Nat := 10000

/-- There is room for `k` symbols on a stack of `h`. -/
def fits (h k : Nat) : Bool := decide (h + k < YYMAXDEPTH)

/-! ## What is checked as settings are added -/

/-- `CONFIG_TYPE_*`. -/
inductive SettingType where
  | int | int64 | float | string | bool | array | list | group
deriving DecidableEq

def typeOf : Setting → SettingType
  | .int ..    => .int
  | .int64 ..  => .int64
  | .float _   => .float
  | .string _  => .string
  | .boolean _ => .bool
  | .array _   => .array
  | .list _    => .list
  | .group _   => .group

/-- `__config_validate_name`. -/
def validateName : Str → Bool
  | []     => false
  | c :: s => isNameStart c && s.all isNameChar

/-- `config_setting_add` to a group: the name is a name, and there is none like it. -/
def settingAdd (members : List (Str × Setting)) (name : Str) : Bool :=
  validateName name && !((Setting.group members).exists_ name)

/-! ## The grammar -/

/-- The tokens that are a `simple_value`, but for strings. -/
def scalar : Token → Option Setting
  | .boolean b   => some (.boolean b)
  | .integer i   => some (.int i .decimal)
  | .integer64 i => some (.int64 i .decimal)
  | .hex i       => some (.int i .hex)
  | .hex64 i     => some (.int64 i .hex)
  | .float t     => some (.float t)
  | _            => none

/-- `simple_value` -/
inductive IsSimple : Nat → List Token → Setting → Prop
  | scalar {h : Nat} {t : Token} {v : Setting} (hf : fits h 1 = true) (ht : scalar t = some v) : IsSimple h [t] v
  | string {h : Nat} (s : Str) (hf : fits h 1 = true) : IsSimple h [.string s] (.string s)
  | strings {h : Nat} (s t : Str) (more : List Str) (hf : fits h 2 = true) :
    IsSimple h ((s :: t :: more).map .string) (.string (s :: t :: more).flatten)

/-- The rest of a `simple_value_list`: `__config_vector_checktype` looks at the first element. -/
inductive IsSimpleRest : Nat → SettingType → List Token → List Setting → Prop
  | nil {h : Nat} {type : SettingType} : IsSimpleRest h type [] []
  | cons {h : Nat} {type : SettingType} {ts rest : List Token} {v : Setting} {vs : List Setting} (hv : IsSimple h ts v)
    (ht : typeOf v = type) (hr : IsSimpleRest h type rest vs) : IsSimpleRest h type (.comma :: (ts ++ rest)) (v :: vs)

/-- `setting_terminator` -/
inductive IsTerminator : List Token → Prop
  | empty : IsTerminator []
  | semicolon : IsTerminator [.semicolon]
  | comma : IsTerminator [.comma]

/-- The height at which the next setting of a `setting_list` begins. -/
def nextHeight (h : Nat) (earlier : List (Str × Setting)) : Nat := if earlier.isEmpty then h else h + 1

mutual

/-- `value` -/
inductive IsValue : Nat → List Token → Setting → Prop
  | simple {h : Nat} {ts : List Token} {v : Setting} (hs : IsSimple h ts v) : IsValue h ts v
  | emptyArray {h : Nat} (hf : fits h 4 = true) : IsValue h [.arrayStart, .arrayEnd] (.array [])
  | array {h : Nat} {ts rest : List Token} {v : Setting} {vs : List Setting} (hf : fits h 4 = true)
    (hv : IsSimple (h + 2) ts v) (hr : IsSimpleRest (h + 4) (typeOf v) rest vs) :
    IsValue h (.arrayStart :: (ts ++ (rest ++ [.arrayEnd]))) (.array (v :: vs))
  | emptyList {h : Nat} (hf : fits h 4 = true) : IsValue h [.listStart, .listEnd] (.list [])
  | list {h : Nat} {ts rest : List Token} {v : Setting} {vs : List Setting} (hf : fits h 4 = true)
    (hv : IsValue (h + 2) ts v) (hr : IsValueRest (h + 4) rest vs) :
    IsValue h (.listStart :: (ts ++ (rest ++ [.listEnd]))) (.list (v :: vs))
  | group {h : Nat} {ts : List Token} {ms : List (Str × Setting)} (hf : fits h 4 = true) (hm : IsSettings (h + 2) [] ts ms) :
    IsValue h (.groupStart :: (ts ++ [.groupEnd])) (.group ms)

/-- The rest of a `value_list`. -/
inductive IsValueRest : Nat → List Token → List Setting → Prop
  | nil {h : Nat} : IsValueRest h [] []
  | cons {h : Nat} {ts rest : List Token} {v : Setting} {vs : List Setting} (hv : IsValue h ts v)
    (hr : IsValueRest h rest vs) : IsValueRest h (.comma :: (ts ++ rest)) (v :: vs)

/-- The rest of a `setting_list`, after the settings `earlier`. -/
inductive IsSettings : Nat → List (Str × Setting) → List Token → List (Str × Setting) → Prop
  | nil {h : Nat} {earlier : List (Str × Setting)} : IsSettings h earlier [] earlier
  | cons {h : Nat} {earlier ms : List (Str × Setting)} {name : Str} {ts term rest : List Token} {v : Setting}
    (ha : settingAdd earlier name = true) (hf : fits (nextHeight h earlier) 5 = true)
    (hv : IsValue (nextHeight h earlier + 3) ts v) (ht : IsTerminator term)
    (hr : IsSettings h (earlier ++ [(name, v)]) rest ms) :
    IsSettings h earlier (.name name :: .equals :: (ts ++ (term ++ rest))) ms

end

/-- `configuration`: the stack holds the initial state. -/
def IsConfiguration (toks : List Token) (t : Setting) : Prop := ∃ ms, IsSettings 1 [] toks ms ∧ t = .group ms

/-! ## The parser -/

/-- The strings at the head, joined. -/
def strings : List Token → Str × List Token
  | .string s :: ts => (s ++ (strings ts).1, (strings ts).2)
  | ts              => ([], ts)

def isString : Token → Bool
  | .string _ => true
  | _         => false

def simpleValue (h : Nat) : List Token → Option (Setting × List Token)
  | .string s :: ts =>
    if fits h (if ts.head?.any isString then 2 else 1) then some (.string (s ++ (strings ts).1), (strings ts).2) else none
  | t :: ts => if fits h 1 then (scalar t).map (fun v => (v, ts)) else none
  | [] => none

/-- What follows an element of an array. -/
def simpleRest (h : Nat) (type : SettingType) : Nat → List Token → Option (List Setting × List Token)
  | _ + 1, .arrayEnd :: ts => some ([], ts)
  | n + 1, .comma :: ts =>
    match simpleValue h ts with
    | none         => none
    | some (v, ts) =>
      if typeOf v ≠ type then none
      else (simpleRest h type n ts).map (fun x => (v :: x.1, x.2))
  | _, _ => none

def dropTerminator : List Token → List Token
  | .semicolon :: ts => ts
  | .comma :: ts     => ts
  | ts               => ts

mutual

def value : Nat → Nat → List Token → Option (Setting × List Token)
  | 0, _, _ => none
  | n + 1, h, ts => match ts with
    | .arrayStart :: ts =>
      if !fits h 4 then none
      else match ts with
        | .arrayEnd :: ts => some (.array [], ts)
        | _ => match simpleValue (h + 2) ts with
          | none         => none
          | some (v, ts) => (simpleRest (h + 4) (typeOf v) n ts).map (fun x => (.array (v :: x.1), x.2))
    | .listStart :: ts =>
      if !fits h 4 then none
      else match ts with
        | .listEnd :: ts => some (.list [], ts)
        | _ => match value n (h + 2) ts with
          | none         => none
          | some (v, ts) => (valueRest n (h + 4) ts).map (fun x => (.list (v :: x.1), x.2))
    | .groupStart :: ts =>
      if !fits h 4 then none
      else match settings n (h + 2) [] ts with
        | some (ms, .groupEnd :: ts) => some (.group ms, ts)
        | _                          => none
    | ts => simpleValue h ts

/-- What follows an element of a list. -/
def valueRest : Nat → Nat → List Token → Option (List Setting × List Token)
  | 0, _, _ => none
  | n + 1, h, ts => match ts with
    | .listEnd :: ts => some ([], ts)
    | .comma :: ts => match value n h ts with
      | none         => none
      | some (v, ts) => (valueRest n h ts).map (fun x => (v :: x.1, x.2))
    | _ => none

def settings : Nat → Nat → List (Str × Setting) → List Token → Option (List (Str × Setting) × List Token)
  | 0, _, _, _ => none
  | n + 1, h, earlier, ts => match ts with
    | .name name :: ts =>
      if !settingAdd earlier name then none
      else match ts with
        | .equals :: ts =>
          if !fits (nextHeight h earlier) 5 then none
          else match value n (nextHeight h earlier + 3) ts with
            | none         => none
            | some (v, ts) => settings n h (earlier ++ [(name, v)]) (dropTerminator ts)
        | _ => none
    | ts => some (earlier, ts)

end

def parse (toks : List Token) : Option Setting :=
  match settings (toks.length + 1) 1 [] toks with
  | some (ms, []) => some (.group ms)
  | _             => none

/-! ## What the parser finds is derived -/

theorem strings_eq : ∀ ts : List Token, ∃ more : List Str, ts = more.map .string ++ (strings ts).2 ∧
    (strings ts).1 = more.flatten ∧ ((strings ts).2.head?.any isString = false)
  | [] => ⟨[], rfl, rfl, rfl⟩
  | t :: ts => by
    cases t with
    | string s =>
      obtain ⟨more, hts, hs, hrest⟩ := strings_eq ts
      refine ⟨s :: more, ?_, ?_, hrest⟩
      · show Token.string s :: ts = Token.string s :: (more.map .string ++ (strings ts).2)
        rw [← hts]
      · show s ++ (strings ts).1 = s ++ more.flatten
        rw [hs]
    | _ => exact ⟨[], rfl, rfl, rfl⟩

theorem simpleValue_sound {h : Nat} {ts rest : List Token} {v : Setting} (hv : simpleValue h ts = some (v, rest)) :
    ∃ pre, ts = pre ++ rest ∧ IsSimple h pre v := by
  cases ts with
  | nil => cases hv
  | cons t ts =>
    have hscalar : ∀ w, scalar t = some w → (if fits h 1 then (scalar t).map (fun v => (v, ts)) else none) = some (v, rest) →
        ∃ pre, t :: ts = pre ++ rest ∧ IsSimple h pre v := fun w hw hs => by
      split at hs
      · rename_i hf
        rw [hw] at hs
        cases hs
        exact ⟨[t], rfl, .scalar hf hw⟩
      · cases hs
    cases t with
    | string s =>
      obtain ⟨more, hts, hs, -⟩ := strings_eq ts
      rw [simpleValue] at hv
      by_cases hf : fits h (if ts.head?.any isString then 2 else 1) = true
      · rw [if_pos hf] at hv
        cases hv
        rw [hs]
        cases more with
        | nil =>
          refine ⟨[.string s], ?_, ?_⟩
          · show Token.string s :: ts = Token.string s :: (strings ts).2
            exact congrArg _ hts
          · rw [List.flatten_nil, List.append_nil]
            refine .string s ?_
            rw [fits, decide_eq_true_eq] at hf ⊢
            split at hf <;> omega
        | cons s' more =>
          refine ⟨(s :: s' :: more).map .string, congrArg _ hts, .strings s s' more ?_⟩
          rw [hts] at hf
          exact hf
      · rw [if_neg hf] at hv
        cases hv
    | boolean | integer | integer64 | hex | hex64 | float => exact hscalar _ rfl hv
    | _ =>
      rw [simpleValue] at hv
      · split at hv
        · cases hv
        · cases hv
      · intro s e; cases e

theorem simpleRest_sound {h : Nat} {type : SettingType} : ∀ {n : Nat} {ts rest : List Token} {vs : List Setting},
    simpleRest h type n ts = some (vs, rest) → ∃ pre, ts = pre ++ .arrayEnd :: rest ∧ IsSimpleRest h type pre vs
  | 0, ts, rest, vs, hs => by
    cases ts with
    | nil => cases hs
    | cons t ts => cases t <;> cases hs
  | n + 1, ts, rest, vs, hs => by
    cases ts with
    | nil => cases hs
    | cons t ts =>
      cases t with
      | arrayEnd => cases hs; exact ⟨[], rfl, .nil⟩
      | comma =>
        rw [simpleRest] at hs
        split at hs
        · cases hs
        · rename_i v ts₁ hv
          split at hs
          · cases hs
          · rename_i ht
            obtain ⟨⟨vs₁, ts₂⟩, hr, hs⟩ := Option.map_eq_some_iff.1 hs
            cases hs
            obtain ⟨pre, rfl, hpre⟩ := simpleValue_sound hv
            obtain ⟨pre', rfl, hpre'⟩ := simpleRest_sound hr
            refine ⟨.comma :: (pre ++ pre'), ?_, .cons hpre (not_not.1 ht) hpre'⟩
            rw [List.cons_append, List.append_assoc]
      | _ => cases hs

theorem terminator_eq (ts : List Token) : ∃ term, IsTerminator term ∧ ts = term ++ dropTerminator ts := by
  cases ts with
  | nil => exact ⟨[], .empty, rfl⟩
  | cons t ts =>
    cases t with
    | semicolon => exact ⟨[.semicolon], .semicolon, rfl⟩
    | comma => exact ⟨[.comma], .comma, rfl⟩
    | _ => exact ⟨[], .empty, rfl⟩

/-- What the three parsers find, for one amount of fuel. -/
structure Sound (n : Nat) : Prop where
  value : ∀ {h ts v rest}, value n h ts = some (v, rest) → ∃ pre, ts = pre ++ rest ∧ IsValue h pre v
  valueRest : ∀ {h ts vs rest}, valueRest n h ts = some (vs, rest) → ∃ pre, ts = pre ++ .listEnd :: rest ∧ IsValueRest h pre vs
  settings : ∀ {h earlier ts ms rest}, settings n h earlier ts = some (ms, rest) →
    ∃ pre, ts = pre ++ rest ∧ IsSettings h earlier pre ms

theorem array_sound {n h : Nat} {ts rest : List Token} {v : Setting}
    (hv : value (n + 1) h (.arrayStart :: ts) = some (v, rest)) :
    ∃ pre, .arrayStart :: ts = pre ++ rest ∧ IsValue h pre v := by
  simp only [value] at hv
  split at hv
  · cases hv
  · rename_i hf
    have hf : fits h 4 = true := by simpa using hf
    split at hv
    · cases hv
      exact ⟨[.arrayStart, .arrayEnd], rfl, .emptyArray hf⟩
    · split at hv
      · cases hv
      · rename_i hw
        obtain ⟨⟨vs, ts₂⟩, hr, hv⟩ := Option.map_eq_some_iff.1 hv
        cases hv
        obtain ⟨pre, rfl, hpre⟩ := simpleValue_sound hw
        obtain ⟨pre', rfl, hpre'⟩ := simpleRest_sound hr
        refine ⟨.arrayStart :: (pre ++ (pre' ++ [.arrayEnd])), ?_, .array hf hpre hpre'⟩
        simp only [List.cons_append, List.append_assoc, List.nil_append]

theorem list_sound {n h : Nat} (ih : Sound n) {ts rest : List Token} {v : Setting}
    (hv : value (n + 1) h (.listStart :: ts) = some (v, rest)) :
    ∃ pre, .listStart :: ts = pre ++ rest ∧ IsValue h pre v := by
  simp only [value] at hv
  split at hv
  · cases hv
  · rename_i hf
    have hf : fits h 4 = true := by simpa using hf
    split at hv
    · cases hv
      exact ⟨[.listStart, .listEnd], rfl, .emptyList hf⟩
    · split at hv
      · cases hv
      · rename_i hw
        obtain ⟨⟨vs, ts₂⟩, hr, hv⟩ := Option.map_eq_some_iff.1 hv
        cases hv
        obtain ⟨pre, rfl, hpre⟩ := ih.value hw
        obtain ⟨pre', rfl, hpre'⟩ := ih.valueRest hr
        refine ⟨.listStart :: (pre ++ (pre' ++ [.listEnd])), ?_, .list hf hpre hpre'⟩
        simp only [List.cons_append, List.append_assoc, List.nil_append]

theorem group_sound {n h : Nat} (ih : Sound n) {ts rest : List Token} {v : Setting}
    (hv : value (n + 1) h (.groupStart :: ts) = some (v, rest)) :
    ∃ pre, .groupStart :: ts = pre ++ rest ∧ IsValue h pre v := by
  simp only [value] at hv
  split at hv
  · cases hv
  · rename_i hf
    have hf : fits h 4 = true := by simpa using hf
    split at hv
    · rename_i hm
      cases hv
      obtain ⟨pre, rfl, hpre⟩ := ih.settings hm
      refine ⟨.groupStart :: (pre ++ [.groupEnd]), ?_, .group hf hpre⟩
      simp only [List.cons_append, List.append_assoc, List.nil_append]
    · cases hv

theorem value_sound {n h : Nat} (ih : Sound n) {ts rest : List Token} {v : Setting}
    (hv : value (n + 1) h ts = some (v, rest)) : ∃ pre, ts = pre ++ rest ∧ IsValue h pre v := by
  have hsimple : simpleValue h ts = some (v, rest) → ∃ pre, ts = pre ++ rest ∧ IsValue h pre v := fun hs => by
    obtain ⟨pre, hts, hpre⟩ := simpleValue_sound hs
    exact ⟨pre, hts, .simple hpre⟩
  cases ts with
  | nil => exact hsimple hv
  | cons t ts =>
    cases t with
    | arrayStart => exact array_sound hv
    | listStart => exact list_sound ih hv
    | groupStart => exact group_sound ih hv
    | _ => exact hsimple hv

theorem valueRest_sound {n h : Nat} (ih : Sound n) {ts rest : List Token} {vs : List Setting}
    (hv : valueRest (n + 1) h ts = some (vs, rest)) : ∃ pre, ts = pre ++ .listEnd :: rest ∧ IsValueRest h pre vs := by
  cases ts with
  | nil => cases hv
  | cons t ts =>
    cases t with
    | listEnd => cases hv; exact ⟨[], rfl, .nil⟩
    | comma =>
      simp only [valueRest] at hv
      split at hv
      · cases hv
      · rename_i hw
        obtain ⟨⟨vs₁, ts₂⟩, hr, hv⟩ := Option.map_eq_some_iff.1 hv
        cases hv
        obtain ⟨pre, rfl, hpre⟩ := ih.value hw
        obtain ⟨pre', rfl, hpre'⟩ := ih.valueRest hr
        refine ⟨.comma :: (pre ++ pre'), ?_, .cons hpre hpre'⟩
        rw [List.cons_append, List.append_assoc]
    | _ => cases hv

theorem settings_sound {n h : Nat} (ih : Sound n) {earlier ms : List (Str × Setting)} {ts rest : List Token}
    (hs : settings (n + 1) h earlier ts = some (ms, rest)) : ∃ pre, ts = pre ++ rest ∧ IsSettings h earlier pre ms := by
  cases ts with
  | nil => cases hs; exact ⟨[], rfl, .nil⟩
  | cons t ts =>
    cases t with
    | name name =>
      simp only [settings] at hs
      split at hs
      · cases hs
      · rename_i ha
        have ha : settingAdd earlier name = true := by simpa using ha
        cases ts with
        | nil => cases hs
        | cons t ts =>
          cases t with
          | equals =>
            simp only at hs
            split at hs
            · cases hs
            · rename_i hf
              have hf : fits (nextHeight h earlier) 5 = true := by simpa using hf
              split at hs
              · cases hs
              · rename_i v ts₁ hv
                obtain ⟨pre, rfl, hpre⟩ := ih.value hv
                obtain ⟨term, hterm, hts⟩ := terminator_eq ts₁
                obtain ⟨pre', hts', hpre'⟩ := ih.settings hs
                refine ⟨.name name :: .equals :: (pre ++ (term ++ pre')), ?_, .cons ha hf hpre hterm hpre'⟩
                rw [hts, hts']
                simp only [List.cons_append, List.append_assoc]
          | _ => cases hs
    | _ => cases hs; exact ⟨[], rfl, .nil⟩

theorem sound : ∀ n : Nat, Sound n
  | 0 => ⟨fun hv => (by cases hv), fun hv => (by cases hv), fun hs => (by cases hs)⟩
  | n + 1 => ⟨fun hv => value_sound (sound n) hv, fun hv => valueRest_sound (sound n) hv, fun hs => settings_sound (sound n) hs⟩

/-! ## What is derived, the parser finds -/

/-- The next token is not a string. -/
def NoString (ts : List Token) : Prop := ts.head?.any isString = false

theorem strings_append {rest : List Token} (hr : NoString rest) : ∀ more : List Str,
    strings (more.map .string ++ rest) = (more.flatten, rest)
  | [] => by
    cases rest with
    | nil => rfl
    | cons t ts => cases t <;> first | rfl | cases hr
  | s :: more => by
    show (s ++ (strings (more.map .string ++ rest)).1, (strings (more.map .string ++ rest)).2) = _
    rw [strings_append hr more]
    rfl

theorem simpleValue_complete {h : Nat} {pre rest : List Token} {v : Setting} (hs : IsSimple h pre v) (hr : NoString rest) :
    simpleValue h (pre ++ rest) = some (v, rest) := by
  cases hs with
  | @scalar t _ hf ht =>
    have hstep : simpleValue h (t :: rest) = if fits h 1 then (scalar t).map (fun v => (v, rest)) else none := by
      cases t <;> first | rfl | cases ht
    show simpleValue h (t :: rest) = some (v, rest)
    rw [hstep, if_pos hf, ht]
    rfl
  | string s hf =>
    show (if fits h (if rest.head?.any isString then 2 else 1) then some (Setting.string (s ++ (strings rest).1), (strings rest).2)
      else none) = some (Setting.string s, rest)
    have hnil : strings rest = ([], rest) := strings_append hr []
    rw [show rest.head?.any isString = false from hr, hnil, List.append_nil]
    exact if_pos hf
  | strings s t more hf =>
    show (if fits h 2 then some (Setting.string (s ++ (strings ((t :: more).map .string ++ rest)).1),
      (strings ((t :: more).map .string ++ rest)).2) else none) = some (Setting.string (s ++ (t :: more).flatten), rest)
    rw [strings_append hr (t :: more)]
    exact if_pos hf

/-- A simple value does not begin as another value does. -/
theorem value_simple {h n : Nat} {pre rest : List Token} {v : Setting} (hs : IsSimple h pre v) :
    value (n + 1) h (pre ++ rest) = simpleValue h (pre ++ rest) := by
  cases hs with
  | @scalar t _ _ ht => cases t <;> first | rfl | cases ht
  | string => rfl
  | strings => rfl

theorem length_simple {h : Nat} {pre : List Token} {v : Setting} (hs : IsSimple h pre v) : 0 < pre.length := by
  cases hs <;> exact Nat.succ_pos _

theorem simpleRest_noString {h : Nat} {type : SettingType} {pre rest : List Token} {vs : List Setting}
    (hr : IsSimpleRest h type pre vs) : NoString (pre ++ .arrayEnd :: rest) := by
  cases hr <;> rfl

theorem simpleRest_complete {h : Nat} {type : SettingType} {pre rest : List Token} {vs : List Setting}
    (hr : IsSimpleRest h type pre vs) : ∀ n, pre.length < n → simpleRest h type n (pre ++ .arrayEnd :: rest) = some (vs, rest) := by
  induction hr with
  | nil =>
    intro n hn
    obtain ⟨n, rfl⟩ := Nat.exists_eq_add_of_lt hn
    rfl
  | @cons ts pre' v vs hv ht hr ih =>
    intro n hn
    cases n with
    | zero => cases hn
    | succ n =>
      have hlen : pre'.length < n := by
        rw [List.length_cons, List.length_append] at hn
        have := length_simple hv
        omega
      show simpleRest h type (n + 1) (.comma :: ((ts ++ pre') ++ .arrayEnd :: rest)) = _
      rw [simpleRest, List.append_assoc, simpleValue_complete hv (simpleRest_noString hr)]
      simp only [ne_eq, ht, not_true_eq_false, if_false]
      rw [ih n hlen]
      rfl

theorem valueRest_noString {h : Nat} {pre rest : List Token} {vs : List Setting} (hr : IsValueRest h pre vs) :
    NoString (pre ++ .listEnd :: rest) := by
  cases hr <;> rfl

/-- What stands after the last setting of a list: nothing, or the end of the group. -/
def Closes (rest : List Token) : Prop := rest = [] ∨ ∃ ts, rest = .groupEnd :: ts

theorem settings_noString {h : Nat} {earlier ms : List (Str × Setting)} {term pre rest : List Token} (ht : IsTerminator term)
    (hs : IsSettings h earlier pre ms) (hr : Closes rest) : NoString (term ++ (pre ++ rest)) := by
  cases ht with
  | semicolon => rfl
  | comma => rfl
  | empty =>
    cases hs with
    | cons => rfl
    | nil =>
      obtain rfl | ⟨ts, rfl⟩ := hr
      · rfl
      · rfl

theorem dropTerminator_append {h : Nat} {earlier ms : List (Str × Setting)} {term pre rest : List Token} (ht : IsTerminator term)
    (hs : IsSettings h earlier pre ms) (hr : Closes rest) : dropTerminator (term ++ (pre ++ rest)) = pre ++ rest := by
  cases ht with
  | semicolon => rfl
  | comma => rfl
  | empty =>
    cases hs with
    | cons => rfl
    | nil =>
      obtain rfl | ⟨ts, rfl⟩ := hr
      · rfl
      · rfl

mutual

theorem value_complete : ∀ {h : Nat} {pre : List Token} {v : Setting}, IsValue h pre v → ∀ (n : Nat) (rest : List Token),
    pre.length ≤ n → NoString rest → value n h (pre ++ rest) = some (v, rest)
  | _, _, _, .simple hs, n, rest, hn, hr => by
    cases n with
    | zero => exact absurd (length_simple hs) (Nat.not_lt.2 hn)
    | succ n => rw [value_simple hs, simpleValue_complete hs hr]
  | _, _, _, .emptyArray hf, n, rest, hn, _ => by
    cases n with
    | zero => cases hn
    | succ n => simp only [List.cons_append, List.nil_append, value, hf, Bool.not_true, Bool.false_eq_true, if_false]
  | h, _, _, @IsValue.array _ ts pre' v vs hf hv hv', n, rest, hn, _ => by
    cases n with
    | zero => cases hn
    | succ n =>
      have hlen : pre'.length < n := by
        simp only [List.length_cons, List.length_append, List.length_nil] at hn
        have := length_simple hv
        omega
      have htext : Token.arrayStart :: (ts ++ (pre' ++ [Token.arrayEnd])) ++ rest =
          .arrayStart :: (ts ++ (pre' ++ .arrayEnd :: rest)) := by
        simp only [List.cons_append, List.append_assoc, List.nil_append]
      have hne : ∀ ts', ts ++ (pre' ++ .arrayEnd :: rest) ≠ .arrayEnd :: ts' := fun ts' e => by
        cases hv with
        | @scalar t _ _ ht => rw [List.singleton_append] at e; cases e; cases ht
        | string => cases e
        | strings => cases e
      rw [htext]
      simp only [value, hf, Bool.not_true, Bool.false_eq_true, if_false]
      rw [simpleValue_complete hv (simpleRest_noString hv')]
      simp only [simpleRest_complete hv' n hlen, Option.map_some]
  | _, _, _, .emptyList hf, n, rest, hn, _ => by
    cases n with
    | zero => cases hn
    | succ n => simp only [List.cons_append, List.nil_append, value, hf, Bool.not_true, Bool.false_eq_true, if_false]
  | h, _, _, @IsValue.list _ ts pre' v vs hf hv hv', n, rest, hn, _ => by
    cases n with
    | zero => cases hn
    | succ n =>
      simp only [List.length_cons, List.length_append, List.length_nil] at hn
      have htext : Token.listStart :: (ts ++ (pre' ++ [Token.listEnd])) ++ rest =
          .listStart :: (ts ++ (pre' ++ .listEnd :: rest)) := by
        simp only [List.cons_append, List.append_assoc, List.nil_append]
      have hfirst := value_complete hv n (pre' ++ .listEnd :: rest) (by omega) (valueRest_noString hv')
      have hrest := valueRest_complete hv' n rest (by omega)
      have hne : ∀ ts', ts ++ (pre' ++ .listEnd :: rest) ≠ .listEnd :: ts' := fun ts' e => by
        rw [e] at hfirst
        cases n with
        | zero => cases hfirst
        | succ n =>
          have hfirst : (if fits (h + 2) 1 then none else none) = some (v, pre' ++ .listEnd :: rest) := hfirst
          rw [ite_self] at hfirst
          cases hfirst
      rw [htext]
      simp only [value, hf, Bool.not_true, Bool.false_eq_true, if_false]
      rw [hfirst]
      simp only [hrest, Option.map_some]
  | h, _, _, @IsValue.group _ ts ms hf hm, n, rest, hn, _ => by
    cases n with
    | zero => cases hn
    | succ n =>
      simp only [List.length_cons, List.length_append, List.length_nil] at hn
      have htext : Token.groupStart :: (ts ++ [Token.groupEnd]) ++ rest = .groupStart :: (ts ++ .groupEnd :: rest) := by
        simp only [List.cons_append, List.append_assoc, List.nil_append]
      rw [htext]
      simp only [value, hf, Bool.not_true, Bool.false_eq_true, if_false]
      rw [settings_complete hm n (.groupEnd :: rest) (by omega) (Or.inr ⟨rest, rfl⟩)]

theorem valueRest_complete : ∀ {h : Nat} {pre : List Token} {vs : List Setting}, IsValueRest h pre vs →
    ∀ (n : Nat) (rest : List Token), pre.length < n → valueRest n h (pre ++ .listEnd :: rest) = some (vs, rest)
  | _, _, _, .nil, n, rest, hn => by
    cases n with
    | zero => cases hn
    | succ n => rfl
  | h, _, _, @IsValueRest.cons _ ts pre' _ _ hv hr, n, rest, hn => by
    cases n with
    | zero => cases hn
    | succ n =>
      simp only [List.length_cons, List.length_append] at hn
      have htext : Token.comma :: (ts ++ pre') ++ .listEnd :: rest = .comma :: (ts ++ (pre' ++ .listEnd :: rest)) := by
        simp only [List.cons_append, List.append_assoc]
      rw [htext]
      simp only [valueRest]
      rw [value_complete hv n (pre' ++ .listEnd :: rest) (by omega) (valueRest_noString hr)]
      simp only [valueRest_complete hr n rest (by omega), Option.map_some]

theorem settings_complete : ∀ {h : Nat} {earlier ms : List (Str × Setting)} {pre : List Token}, IsSettings h earlier pre ms →
    ∀ (n : Nat) (rest : List Token), pre.length < n → Closes rest → settings n h earlier (pre ++ rest) = some (ms, rest)
  | _, _, _, _, .nil, n, rest, hn, hr => by
    cases n with
    | zero => cases hn
    | succ n =>
      obtain rfl | ⟨ts, rfl⟩ := hr
      · rfl
      · rfl
  | h, earlier, _, _, @IsSettings.cons _ _ _ name ts term pre' _ ha hf hv ht hs, n, rest, hn, hr => by
    cases n with
    | zero => cases hn
    | succ n =>
      simp only [List.length_cons, List.length_append] at hn
      have htext : Token.name name :: .equals :: (ts ++ (term ++ pre')) ++ rest =
          .name name :: .equals :: (ts ++ (term ++ (pre' ++ rest))) := by
        simp only [List.cons_append, List.append_assoc]
      rw [htext]
      simp only [settings, ha, hf, Bool.not_true, Bool.false_eq_true, if_false]
      rw [value_complete hv n (term ++ (pre' ++ rest)) (by omega) (settings_noString ht hs hr)]
      simp only [dropTerminator_append ht hs hr]
      exact settings_complete hs n rest (by omega) hr

end

/-- **The parser finds what the grammar derives.** -/
theorem parse_iff (toks : List Token) (t : Setting) : parse toks = some t ↔ IsConfiguration toks t := by
  unfold parse
  constructor
  · intro h
    split at h
    · rename_i ms hm
      cases h
      obtain ⟨pre, hpre, hs⟩ := (sound _).settings hm
      rw [List.append_nil] at hpre
      rw [hpre]
      exact ⟨ms, hs, rfl⟩
    · cases h
  · rintro ⟨ms, hs, rfl⟩
    have hm := settings_complete hs (toks.length + 1) [] (Nat.lt_succ_self _) (Or.inl rfl)
    rw [List.append_nil] at hm
    rw [hm]

/-- **The grammar is unambiguous**: the tokens of a file give one tree of settings or none. -/
theorem configuration_unique (toks : List Token) (t t' : Setting) (h : IsConfiguration toks t) (h' : IsConfiguration toks t') :
    t = t' := by
  rw [← parse_iff] at h h'
  exact Option.some.inj (h.symm.trans h')

end CheckRealtime.Libconfig
