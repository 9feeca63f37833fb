import CheckRealtime.ConfigGrammar
/-!
# ConfigTree — the trees a configuration file can give

`Readable`: names that are names and told apart, arrays of one scalar type, strings without a NUL, numbers within their type,
and no deeper than the parser's stack.  Every derivation gives such a tree (`readable_of_settings`), and every such tree is
derived from its own tokens (`settings_memberToks`).
-/
namespace CheckRealtime.Libconfig

/-- The words that are taken for booleans, in any case. -/
def isBooleanWord (s : Str) : Bool := s.map toLower == ascii "true" || s.map toLower == ascii "false"

def FitsInt (i : Int) : Prop := -2 ^ 31 ≤ i ∧ i < 2 ^ 31

def FitsLong (i : Int) : Prop := -2 ^ 63 ≤ i ∧ i < 2 ^ 63

/-- What the scanner gives. -/
def Token.Ok : Token → Prop
  | .integer i   => FitsInt i
  | .hex i       => FitsInt i
  | .integer64 i => FitsLong i
  | .hex64 i     => FitsLong i
  | .float t     => t ∈ (pattern .float).language
  | .string s    => 0 ∉ s
  | .name s      => isBooleanWord s = false
  | _            => True

def isScalar (v : Setting) : Bool :=
  match typeOf v with
  | .array | .list | .group => false
  | _                       => true

mutual

/-- A value whose production begins at height `h` of the stack. -/
def Readable : Nat → Setting → Prop
  | h, .int i _    => fits h 1 = true ∧ FitsInt i
  | h, .int64 i _  => fits h 1 = true ∧ FitsLong i
  | h, .float t    => fits h 1 = true ∧ t ∈ (pattern .float).language
  | h, .string s   => fits h 1 = true ∧ 0 ∉ s
  | h, .boolean _  => fits h 1 = true
  | h, .array vs   => fits h 4 = true ∧ ReadableElems (h + 2) (h + 4) vs ∧ (∀ v ∈ vs, isScalar v = true) ∧
    ∀ v ∈ vs.head?, ∀ w ∈ vs, typeOf w = typeOf v
  | h, .list vs    => fits h 4 = true ∧ ReadableElems (h + 2) (h + 4) vs
  | h, .group ms   => fits h 4 = true ∧ ReadableMembers (h + 2) [] ms

/-- The first begins at `h`, the others, after the list so far and a comma, at `next`. -/
def ReadableElems : Nat → Nat → List Setting → Prop
  | _, _, []         => True
  | h, next, v :: vs => Readable h v ∧ ReadableElems next next vs

def ReadableMembers : Nat → List (Str × Setting) → List (Str × Setting) → Prop
  | _, _, []                     => True
  | h, earlier, (name, v) :: ms  => settingAdd earlier name = true ∧ isBooleanWord name = false ∧
    fits (nextHeight h earlier) 5 = true ∧ Readable (nextHeight h earlier + 3) v ∧
    ReadableMembers h (earlier ++ [(name, v)]) ms

end

/-- The tree of a whole file. -/
def ReadableFile : Setting → Prop
  | .group ms => ReadableMembers 1 [] ms
  | _         => False

/-! ## What is derived is readable -/

theorem readable_of_simple {h : Nat} {ts : List Token} {v : Setting} (hs : IsSimple h ts v) (hok : ∀ t ∈ ts, t.Ok) :
    Readable h v ∧ isScalar v = true := by
  have hone : fits h 2 = true → fits h 1 = true := fun hf => by
    rw [fits, decide_eq_true_eq] at hf ⊢
    omega
  cases hs with
  | @scalar t _ hf ht =>
    have hok := hok t List.mem_cons_self
    cases t <;> first
      | (cases ht; exact ⟨⟨hf, hok⟩, rfl⟩)
      | (cases ht; exact ⟨hf, rfl⟩)
      | cases ht
  | string s hf => exact ⟨⟨hf, hok (.string s) List.mem_cons_self⟩, rfl⟩
  | strings s t more hf =>
    refine ⟨⟨hone hf, fun h0 => ?_⟩, rfl⟩
    obtain ⟨s', hs', h0⟩ := List.mem_flatten.1 h0
    exact hok (.string s') (List.mem_map_of_mem hs') h0

theorem readable_of_simpleRest {h : Nat} {type : SettingType} {ts : List Token} {vs : List Setting}
    (hr : IsSimpleRest h type ts vs) (hok : ∀ t ∈ ts, t.Ok) :
    ReadableElems h h vs ∧ (∀ v ∈ vs, isScalar v = true) ∧ ∀ v ∈ vs, typeOf v = type := by
  induction hr with
  | nil => exact ⟨trivial, fun _ hv => absurd hv List.not_mem_nil, fun _ hv => absurd hv List.not_mem_nil⟩
  | @cons ts rest v vs hv ht _ ih =>
    have hok' : ∀ t ∈ ts ++ rest, t.Ok := fun t hm => hok t (List.mem_cons_of_mem _ hm)
    obtain ⟨hread, hscalar⟩ := readable_of_simple hv (fun t hm => hok' t (List.mem_append_left _ hm))
    obtain ⟨ih₁, ih₂, ih₃⟩ := ih (fun t hm => hok' t (List.mem_append_right _ hm))
    exact ⟨⟨hread, ih₁⟩, List.forall_mem_cons.2 ⟨hscalar, ih₂⟩, List.forall_mem_cons.2 ⟨ht, ih₃⟩⟩

mutual

theorem readable_of_value : ∀ {h : Nat} {ts : List Token} {v : Setting}, IsValue h ts v → (∀ t ∈ ts, t.Ok) → Readable h v
  | _, _, _, .simple hs, hok => (readable_of_simple hs hok).1
  | _, _, _, .emptyArray hf, _ => by
    rw [Readable]
    exact ⟨hf, trivial, fun _ hv => absurd hv List.not_mem_nil, fun _ hv => by cases hv⟩
  | _, _, _, @IsValue.array _ ts rest _ _ hf hv hr, hok => by
    have hok' : ∀ t ∈ ts ++ (rest ++ [.arrayEnd]), t.Ok := fun t hm => hok t (List.mem_cons_of_mem _ hm)
    obtain ⟨hread, hscalar⟩ := readable_of_simple hv (fun t hm => hok' t (List.mem_append_left _ hm))
    obtain ⟨hr₁, hr₂, hr₃⟩ := readable_of_simpleRest hr
      (fun t hm => hok' t (List.mem_append_right _ (List.mem_append_left _ hm)))
    rw [Readable]
    refine ⟨hf, ⟨hread, hr₁⟩, List.forall_mem_cons.2 ⟨hscalar, hr₂⟩, fun v hv => ?_⟩
    cases hv
    exact List.forall_mem_cons.2 ⟨rfl, hr₃⟩
  | _, _, _, .emptyList hf, _ => by
    rw [Readable]
    exact ⟨hf, trivial⟩
  | _, _, _, @IsValue.list _ ts rest _ _ hf hv hr, hok => by
    have hok' : ∀ t ∈ ts ++ (rest ++ [.listEnd]), t.Ok := fun t hm => hok t (List.mem_cons_of_mem _ hm)
    rw [Readable]
    exact ⟨hf, readable_of_value hv (fun t hm => hok' t (List.mem_append_left _ hm)),
      readable_of_valueRest hr (fun t hm => hok' t (List.mem_append_right _ (List.mem_append_left _ hm)))⟩
  | _, _, _, @IsValue.group _ ts _ hf hm, hok => by
    obtain ⟨added, rfl, hadded⟩ := readable_of_settings hm
      (fun t ht => hok t (List.mem_cons_of_mem _ (List.mem_append_left _ ht)))
    rw [Readable]
    exact ⟨hf, hadded⟩

theorem readable_of_valueRest : ∀ {h : Nat} {ts : List Token} {vs : List Setting}, IsValueRest h ts vs → (∀ t ∈ ts, t.Ok) →
    ReadableElems h h vs
  | _, _, _, .nil, _ => trivial
  | _, _, _, @IsValueRest.cons _ ts rest _ _ hv hr, hok => by
    have hok' : ∀ t ∈ ts ++ rest, t.Ok := fun t hm => hok t (List.mem_cons_of_mem _ hm)
    rw [ReadableElems]
    exact ⟨readable_of_value hv (fun t hm => hok' t (List.mem_append_left _ hm)),
      readable_of_valueRest hr (fun t hm => hok' t (List.mem_append_right _ hm))⟩

theorem readable_of_settings : ∀ {h : Nat} {earlier ms : List (Str × Setting)} {ts : List Token}, IsSettings h earlier ts ms →
    (∀ t ∈ ts, t.Ok) → ∃ added, ms = earlier ++ added ∧ ReadableMembers h earlier added
  | _, earlier, _, _, .nil, _ => ⟨[], (List.append_nil earlier).symm, trivial⟩
  | _, earlier, _, _, @IsSettings.cons _ _ _ name ts term rest v ha hf hv ht hs, hok => by
    have hok' : ∀ t ∈ ts ++ (term ++ rest), t.Ok := fun t hm => hok t (List.mem_cons_of_mem _ (List.mem_cons_of_mem _ hm))
    obtain ⟨added, rfl, hadded⟩ := readable_of_settings hs
      (fun t hm => hok' t (List.mem_append_right _ (List.mem_append_right _ hm)))
    refine ⟨(name, v) :: added, by rw [List.append_assoc]; rfl, ?_⟩
    rw [ReadableMembers]
    exact ⟨ha, hok (.name name) List.mem_cons_self, hf,
      readable_of_value hv (fun t hm => hok' t (List.mem_append_left _ hm)), hadded⟩

end

/-! ## The tokens of a tree -/

mutual

def valueToks : Setting → List Token
  | .int i .decimal   => [.integer i]
  | .int i .hex       => [.hex i]
  | .int64 i .decimal => [.integer64 i]
  | .int64 i .hex     => [.hex64 i]
  | .float t          => [.float t]
  | .string s         => [.string s]
  | .boolean b        => [.boolean b]
  | .array vs         => .arrayStart :: (elemToks vs ++ [.arrayEnd])
  | .list vs          => .listStart :: (elemToks vs ++ [.listEnd])
  | .group ms         => .groupStart :: (memberToks ms ++ [.groupEnd])

def elemToks : List Setting → List Token
  | []      => []
  | v :: vs => valueToks v ++ restToks vs

def restToks : List Setting → List Token
  | []      => []
  | v :: vs => .comma :: (valueToks v ++ restToks vs)

/-- Every setting with its semicolon. -/
def memberToks : List (Str × Setting) → List Token
  | []              => []
  | (name, v) :: ms => .name name :: .equals :: (valueToks v ++ ([.semicolon] ++ memberToks ms))

end

theorem simple_valueToks {h : Nat} {v : Setting} (hv : Readable h v) (hs : isScalar v = true) : IsSimple h (valueToks v) v := by
  cases v with
  | int i format =>
    rw [Readable] at hv
    cases format with
    | decimal => exact .scalar hv.1 rfl
    | hex => exact .scalar hv.1 rfl
  | int64 i format =>
    rw [Readable] at hv
    cases format with
    | decimal => exact .scalar hv.1 rfl
    | hex => exact .scalar hv.1 rfl
  | float t => exact .scalar (by rw [Readable] at hv; exact hv.1) rfl
  | string s => exact .string s (by rw [Readable] at hv; exact hv.1)
  | boolean b => exact .scalar (by rw [Readable] at hv; exact hv) rfl
  | array | list | group => cases hs

theorem simpleRest_restToks {h : Nat} {type : SettingType} : ∀ {vs : List Setting}, ReadableElems h h vs →
    (∀ v ∈ vs, isScalar v = true) → (∀ v ∈ vs, typeOf v = type) → IsSimpleRest h type (restToks vs) vs
  | [], _, _, _ => .nil
  | v :: vs, hr, hs, ht => by
    rw [ReadableElems] at hr
    rw [List.forall_mem_cons] at hs ht
    exact .cons (simple_valueToks hr.1 hs.1) ht.1 (simpleRest_restToks hr.2 hs.2 ht.2)

mutual

theorem value_valueToks : ∀ {h : Nat} {v : Setting}, Readable h v → IsValue h (valueToks v) v
  | _, .int i format, hv => .simple (simple_valueToks hv rfl)
  | _, .int64 i format, hv => .simple (simple_valueToks hv rfl)
  | _, .float t, hv => .simple (simple_valueToks hv rfl)
  | _, .string s, hv => .simple (simple_valueToks hv rfl)
  | _, .boolean b, hv => .simple (simple_valueToks hv rfl)
  | _, .array [], hv => by
    rw [Readable] at hv
    exact .emptyArray hv.1
  | h, .array (v :: vs), hv => by
    rw [Readable, ReadableElems] at hv
    obtain ⟨hf, ⟨hv, hr⟩, hs, ht⟩ := hv
    have ht := ht v rfl
    rw [List.forall_mem_cons] at hs ht
    rw [valueToks, elemToks, List.append_assoc]
    exact .array hf (simple_valueToks hv hs.1) (simpleRest_restToks hr hs.2 ht.2)
  | _, .list [], hv => by
    rw [Readable] at hv
    exact .emptyList hv.1
  | h, .list (v :: vs), hv => by
    rw [Readable, ReadableElems] at hv
    rw [valueToks, elemToks, List.append_assoc]
    exact .list hv.1 (value_valueToks hv.2.1) (valueRest_restToks hv.2.2)
  | h, .group ms, hv => by
    rw [Readable] at hv
    rw [valueToks]
    exact .group hv.1 (settings_memberToks hv.2)

theorem valueRest_restToks : ∀ {h : Nat} {vs : List Setting}, ReadableElems h h vs → IsValueRest h (restToks vs) vs
  | _, [], _ => .nil
  | h, v :: vs, hr => by
    rw [ReadableElems] at hr
    exact .cons (value_valueToks hr.1) (valueRest_restToks hr.2)

theorem settings_memberToks : ∀ {h : Nat} {earlier ms : List (Str × Setting)}, ReadableMembers h earlier ms →
    IsSettings h earlier (memberToks ms) (earlier ++ ms)
  | _, earlier, [], _ => by
    rw [List.append_nil]
    exact .nil
  | h, earlier, (name, v) :: ms, hm => by
    rw [ReadableMembers] at hm
    obtain ⟨ha, -, hf, hv, hm⟩ := hm
    have hrest := settings_memberToks hm
    rw [List.append_assoc] at hrest
    exact .cons ha hf (value_valueToks hv) .semicolon hrest

end

end CheckRealtime.Libconfig
