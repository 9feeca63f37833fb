import CheckRealtime.Util
import Mathlib.Data.List.Infix
import Mathlib.Logic.Function.Basic
/-!
# Alerter — `alerter.cpp`

`alert` looks for a rule at the directory of the file, then at what `get_basedir` makes of it, and so on.  The strings it
tries are the prefixes cut at a slash or a backslash (`lookUp_eq`), which are not the ancestors of the directory: a
backslash in a name adds one, and `/` is never among them unless the walk starts there or the first name starts with a
backslash.  `alert_nearest_iff` says when the rule found is still the one of the nearest directory.
-/
namespace CheckRealtime

/-- `_conf`, and the keys of `_actions`. -/
structure Alerter where
  conf    : Str × Int → Option (List Str)
  actions : List Str

def newAlerter : Alerter := ⟨fun _ => none, []⟩

/-- A call of a registered action, under the name it is registered by. -/
structure ActionCall where
  type  : Str
  level : Int
  dir   : Str
  name  : Str
deriving DecidableEq

namespace Alerter

def addAction (a : Alerter) (type : Str) : Alerter := { a with actions := type :: a.actions }

/-- `add_rule`: only the test looks at the trimmed path. -/
def addRule (a : Alerter) (level : Int) (dir : Str) (type : List Str) : Alerter :=
  if (stringtrim dir).length = 0 then a else { a with conf := Function.update a.conf (dir, level) (some type) }

def findRule (a : Alerter) (level : Int) (dir : Str) : Option (List Str) := a.conf (dir, level)

end Alerter

theorem getBasedir_length_lt (path : Str) (h : getBasedir path ≠ path) : (getBasedir path).length < path.length := by
  unfold getBasedir at h ⊢
  have hle : (path.reverse.dropWhile (fun c => !isSep c)).length ≤ path.length := by
    have := (List.dropWhile_sublist (fun c => !isSep c) (l := path.reverse)).length_le
    rwa [List.length_reverse] at this
  split
  · rename_i hd
    simp only [hd, ne_eq, not_true_eq_false] at h
  · rename_i c front hd
    rw [hd, List.length_cons] at hle
    rw [List.length_reverse]
    omega

namespace Alerter

/-- The loop of `alert`: up by `get_basedir`, until a rule is found or nothing changes. -/
def lookUp (a : Alerter) (level : Int) (path : Str) : Option (List Str) :=
  match a.findRule level path with
  | some action => some action
  | none        => if getBasedir path = path then none else lookUp a level (getBasedir path)
termination_by path.length
decreasing_by exact getBasedir_length_lt path ‹_›

def alert (a : Alerter) (level : Int) (dir name : Str) : List ActionCall :=
  match a.lookUp level dir with
  | none        => []
  | some action => (action.filter a.actions.contains).map (fun it => ⟨it, level, dir, name⟩)

end Alerter

/-! ## The strings of the walk -/

/-- The prefixes of a string before its separators, the longest first; the argument is the string backwards. -/
def cuts : Str → List Str
  | []     => []
  | c :: r => if isSep c then r.reverse :: cuts r else cuts r

def visited (path : Str) : List Str := path :: cuts path.reverse

theorem cuts_dropWhile : ∀ r : Str, cuts r = cuts (r.dropWhile (fun c => !isSep c))
  | []     => rfl
  | c :: r => by
    by_cases hc : isSep c = true
    · rw [List.dropWhile_cons_of_neg (by simp [hc])]
    · rw [cuts, if_neg hc, List.dropWhile_cons_of_pos (by simpa using hc)]
      exact cuts_dropWhile r

theorem visited_eq (path : Str) :
    visited path = path :: if getBasedir path = path then [] else visited (getBasedir path) := by
  rw [visited, cuts_dropWhile]
  have hhead : ∀ c front, path.reverse.dropWhile (fun c => !isSep c) = c :: front → isSep c = true := fun c front h => by
    have := List.head_dropWhile_not (fun c => !isSep c) (l := path.reverse) (by rw [h]; exact List.cons_ne_nil _ _)
    simpa [h] using this
  cases hd : path.reverse.dropWhile (fun c => !isSep c) with
  | nil =>
    have hb : getBasedir path = path := by unfold getBasedir; rw [hd]
    rw [if_pos hb, cuts]
  | cons c front =>
    have hb : getBasedir path = front.reverse := by unfold getBasedir; rw [hd]
    have hne : front.reverse ≠ path := fun h => by
      have hle := (List.dropWhile_sublist (fun c => !isSep c) (l := path.reverse)).length_le
      rw [hd, List.length_cons, ← h] at hle
      simp at hle
    rw [hb, if_neg hne, cuts, if_pos (hhead c front hd), visited, List.reverse_reverse]

/-- **The loop tries the prefixes cut at a separator, and ends after the last.** -/
theorem lookUp_eq (a : Alerter) (level : Int) (path : Str) :
    a.lookUp level path = (visited path).findSome? (a.findRule level) := by
  induction path using Alerter.lookUp.induct a level with
  | case1 path action h => rw [Alerter.lookUp, visited_eq, List.findSome?_cons, h]
  | case2 path h hb => rw [Alerter.lookUp, visited_eq, List.findSome?_cons, h]; simp only [if_pos hb]; rfl
  | case3 path h hb ih =>
    rw [Alerter.lookUp, visited_eq, List.findSome?_cons, h]
    simp only [if_neg hb]
    exact ih

theorem mem_cuts (p : Str) : ∀ r : Str, p ∈ cuts r ↔ ∃ t c, isSep c = true ∧ r = t ++ c :: p.reverse
  | []     => by simp [cuts]
  | c :: r => by
    have ih := mem_cuts p r
    rw [cuts]
    constructor
    · intro h
      by_cases hc : isSep c = true
      · rw [if_pos hc, List.mem_cons, ih] at h
        rcases h with rfl | ⟨t, d, hd, rfl⟩
        · exact ⟨[], c, hc, by rw [List.reverse_reverse, List.nil_append]⟩
        · exact ⟨c :: t, d, hd, rfl⟩
      · rw [if_neg hc, ih] at h
        obtain ⟨t, d, hd, rfl⟩ := h
        exact ⟨c :: t, d, hd, rfl⟩
    · rintro ⟨t, d, hd, ht⟩
      cases t with
      | nil =>
        simp only [List.nil_append, List.cons.injEq] at ht
        obtain ⟨rfl, rfl⟩ := ht
        rw [if_pos hd, List.reverse_reverse]
        exact List.mem_cons_self
      | cons x t =>
        simp only [List.cons_append, List.cons.injEq] at ht
        have hmem := ih.2 ⟨t, d, hd, ht.2⟩
        split
        · exact List.mem_cons_of_mem _ hmem
        · exact hmem

theorem mem_cuts_reverse (p path : Str) :
    p ∈ cuts path.reverse ↔ ∃ t c, isSep c = true ∧ path = p ++ c :: t := by
  rw [mem_cuts]
  constructor
  · rintro ⟨t, c, hc, h⟩
    refine ⟨t.reverse, c, hc, ?_⟩
    rw [← List.reverse_reverse path, h]
    simp
  · rintro ⟨t, c, hc, rfl⟩
    exact ⟨t.reverse, c, hc, by simp⟩

theorem mem_visited (p path : Str) :
    p ∈ visited path ↔ p = path ∨ ∃ t c, isSep c = true ∧ path = p ++ c :: t := by
  rw [visited, List.mem_cons, mem_cuts_reverse]

theorem cuts_shorter : ∀ r : Str, (cuts r).Pairwise (fun p q => q.length < p.length)
  | []     => List.Pairwise.nil
  | c :: r => by
    rw [cuts]
    split
    · refine List.pairwise_cons.2 ⟨fun q hq => ?_, cuts_shorter r⟩
      obtain ⟨t, d, -, rfl⟩ := (mem_cuts q r).1 hq
      rw [List.length_reverse, List.length_append, List.length_cons, List.length_reverse]
      omega
    · exact cuts_shorter r

theorem visited_shorter (path : Str) : (visited path).Pairwise (fun p q => q.length < p.length) := by
  refine List.pairwise_cons.2 ⟨fun q hq => ?_, cuts_shorter path.reverse⟩
  obtain ⟨t, d, -, rfl⟩ := (mem_cuts_reverse q path).1 hq
  rw [List.length_append, List.length_cons]
  omega

/-- In a list that gets shorter, the first hit is the longest. -/
theorem findSome?_longest {α β : Type} (f : α → Option β) (len : α → Nat) (b : β) : ∀ l : List α,
    l.Pairwise (fun x y => len y < len x) →
      (l.findSome? f = some b ↔ ∃ x ∈ l, f x = some b ∧ ∀ y ∈ l, f y ≠ none → len y ≤ len x)
  | [], _ => by simp
  | x :: l, h => by
    obtain ⟨hx, hl⟩ := List.pairwise_cons.1 h
    rw [List.findSome?_cons]
    cases hf : f x with
    | some c =>
      simp only [Option.some.injEq]
      constructor
      · rintro rfl
        refine ⟨x, List.mem_cons_self, hf, fun y hy _ => ?_⟩
        rcases List.mem_cons.1 hy with rfl | hy
        · exact Nat.le_refl _
        · exact Nat.le_of_lt (hx y hy)
      · rintro ⟨y, hy, hfy, hmax⟩
        rcases List.mem_cons.1 hy with rfl | hy
        · exact Option.some.inj (hf.symm.trans hfy)
        · have := hmax x List.mem_cons_self (by rw [hf]; exact Option.some_ne_none c)
          have := hx y hy
          omega
    | none =>
      simp only
      rw [findSome?_longest f len b l hl]
      constructor
      · rintro ⟨y, hy, hfy, hmax⟩
        refine ⟨y, List.mem_cons_of_mem x hy, hfy, fun z hz hfz => ?_⟩
        rcases List.mem_cons.1 hz with rfl | hz
        · exact absurd hf hfz
        · exact hmax z hz hfz
      · rintro ⟨y, hy, hfy, hmax⟩
        rcases List.mem_cons.1 hy with rfl | hy
        · rw [hf] at hfy; cases hfy
        · exact ⟨y, hy, hfy, fun z hz => hmax z (List.mem_cons_of_mem x hz)⟩

/-! ## Directories and their ancestors -/

/-- A normalised absolute directory, by its names from the innermost out. -/
structure Directory where
  names  : List Str
  normal : ∀ n ∈ names, n ≠ [] ∧ slash ∉ n ∧ 0 ∉ n ∧ n ≠ ascii "." ∧ n ≠ ascii ".."

def joined : List Str → Str
  | []      => []
  | n :: up => joined up ++ slash :: n

def dirPath (names : List Str) : Str := if names = [] then [slash] else joined names

def Directory.path (d : Directory) : Str := dirPath d.names

/-- The directory itself, its parent, and so on up to `/`. -/
def Directory.ancestors (d : Directory) : List Str := d.names.tails.map dirPath

theorem joined_append (up : List Str) : ∀ names : List Str, joined (names ++ up) = joined up ++ joined names
  | []         => (List.append_nil _).symm
  | n :: names => by rw [List.cons_append, joined, joined_append up names, joined, List.append_assoc]

theorem joined_head : ∀ names : List Str, names ≠ [] → ∃ t, joined names = slash :: t
  | [], h      => absurd rfl h
  | [n], _     => ⟨n, rfl⟩
  | n :: m :: up, _ => by
    obtain ⟨t, ht⟩ := joined_head (m :: up) (List.cons_ne_nil m up)
    exact ⟨t ++ slash :: n, by rw [joined, ht, List.cons_append]⟩

theorem dirPath_head (names : List Str) : ∃ t, dirPath names = slash :: t := by
  unfold dirPath
  split
  · exact ⟨[], rfl⟩
  · rename_i h
    exact joined_head names h

theorem dirPath_ne_nil (names : List Str) : dirPath names ≠ [] := by
  obtain ⟨t, ht⟩ := dirPath_head names
  rw [ht]
  exact List.cons_ne_nil _ _

/-- A directory cut at a slash, where something is left, is a directory further up. -/
theorem joined_cut (p t : Str) (hp : p ≠ []) : ∀ names : List Str, (∀ n ∈ names, slash ∉ n) →
    joined names = p ++ slash :: t → ∃ up, up <:+ names ∧ up ≠ [] ∧ p = joined up
  | [], _, h => by simp [joined] at h
  | n :: up, hn, h => by
    rw [joined] at h
    have hnot : slash ∉ n := hn n List.mem_cons_self
    rcases List.append_eq_append_iff.1 h with ⟨m, hm, ht⟩ | ⟨m, hm, ht⟩
    · cases m with
      | nil =>
        rw [List.append_nil] at hm
        subst hm
        refine ⟨up, List.suffix_cons n up, ?_, rfl⟩
        rintro rfl
        exact hp rfl
      | cons x m =>
        simp only [List.cons_append, List.cons.injEq] at ht
        exact absurd (ht.2 ▸ List.mem_append_right m List.mem_cons_self) hnot
    · cases m with
      | nil =>
        rw [List.append_nil] at hm
        subst hm
        refine ⟨up, List.suffix_cons n up, ?_, rfl⟩
        rintro rfl
        exact hp rfl
      | cons x m =>
        simp only [List.cons_append, List.cons.injEq] at ht
        rw [← ht.1] at hm
        obtain ⟨up', hsuf, hne, rfl⟩ := joined_cut p m hp up (fun k hk => hn k (List.mem_cons_of_mem n hk)) hm
        exact ⟨up', hsuf.trans (List.suffix_cons n up), hne, rfl⟩

/-- **The ancestors are the directory, `/`, and what is before a slash.** -/
theorem mem_ancestors (d : Directory) (p : Str) :
    p ∈ d.ancestors ↔ p = d.path ∨ p = [slash] ∨ (p ≠ [] ∧ ∃ t, d.path = p ++ slash :: t) := by
  unfold Directory.ancestors Directory.path
  rw [List.mem_map]
  constructor
  · rintro ⟨up, hup, rfl⟩
    obtain ⟨below, hbelow⟩ := (List.mem_tails _ _).1 hup
    by_cases hu : up = []
    · exact Or.inr (Or.inl (by rw [hu]; rfl))
    · by_cases hb : below = []
      · rw [hb, List.nil_append] at hbelow
        exact Or.inl (by rw [hbelow])
      · obtain ⟨t, ht⟩ := joined_head below hb
        refine Or.inr (Or.inr ⟨dirPath_ne_nil up, t, ?_⟩)
        have hne : d.names ≠ [] := by rw [← hbelow]; simp [hb]
        rw [dirPath, if_neg hne, ← hbelow, joined_append, ht, dirPath, if_neg hu]
  · rintro (rfl | rfl | ⟨hp, t, ht⟩)
    · exact ⟨d.names, (List.mem_tails _ _).2 (List.suffix_refl _), rfl⟩
    · exact ⟨[], (List.mem_tails _ _).2 (List.nil_suffix), rfl⟩
    · have hne : d.names ≠ [] := by
        rintro h0
        rw [h0, dirPath, if_pos rfl] at ht
        rcases List.append_eq_cons_iff.1 ht.symm with ⟨h, -⟩ | ⟨m, -, hm⟩
        · exact hp h
        · simp at hm
      rw [dirPath, if_neg hne] at ht
      obtain ⟨up, hsuf, hup, rfl⟩ := joined_cut p t hp d.names (fun n hn => (d.normal n hn).2.1) ht
      exact ⟨up, (List.mem_tails _ _).2 hsuf, by rw [dirPath, if_neg hup]⟩

theorem dirPath_shorter (n : Str) (hn : n ≠ []) (up names : List Str) (h : up <:+ names) :
    (dirPath up).length < (dirPath (n :: names)).length := by
  have hpos : 0 < n.length := List.length_pos_iff.2 hn
  obtain ⟨below, rfl⟩ := h
  rw [dirPath, dirPath, if_neg (List.cons_ne_nil _ _), joined, joined_append]
  simp only [List.length_append, List.length_cons]
  split
  · simp only [List.length_cons, List.length_nil]
    omega
  · omega

theorem ancestors_shorter (d : Directory) : d.ancestors.Pairwise (fun p q => q.length < p.length) := by
  have htails : ∀ names : List Str, (∀ n ∈ names, n ≠ []) →
      (names.tails.map dirPath).Pairwise (fun p q => q.length < p.length) := fun names => by
    induction names with
    | nil => intro _; simp
    | cons n names ih =>
      intro hn
      rw [List.tails, List.map_cons]
      refine List.pairwise_cons.2 ⟨fun q hq => ?_, ih (fun m hm => hn m (List.mem_cons_of_mem n hm))⟩
      obtain ⟨up, hup, rfl⟩ := List.mem_map.1 hq
      exact dirPath_shorter n (hn n List.mem_cons_self) up names ((List.mem_tails _ _).1 hup)
  exact htails d.names (fun n hn => (d.normal n hn).1)

/-! ## The rule of the nearest directory -/

structure Rule where
  level : Int
  dir   : Directory
  types : List Str

/-- The rules as `add_rule` takes them, with the actions registered first. -/
def alerterOf (rules : List Rule) (actions : List Str) : Alerter :=
  rules.foldl (fun a r => a.addRule r.level r.dir.path r.types) (actions.foldl Alerter.addAction newAlerter)

/-- The action list most recently added for a level and a directory. -/
def latest (rules : List Rule) (level : Int) (dir : Str) : Option (List Str) :=
  (rules.reverse.find? (fun r => r.level == level && r.dir.path == dir)).map Rule.types

def nearest (rules : List Rule) (level : Int) (d : Directory) : List Str :=
  (d.ancestors.findSome? (latest rules level)).getD []

def registered (actions types : List Str) : List Str := types.filter actions.contains

/-- `p` is `d` cut at a backslash, and not by chance `/`. -/
def Stray (d : Directory) (p : Str) : Prop := p ≠ [slash] ∧ ∃ t, d.path = p ++ backslash :: t

/-- When the walk finds what the tree says: a stray string with the first rule has the actions of the nearest directory,
and when there is no rule below `/`, the walk gets there or the rule of `/` has no actions. -/
structure KeepsToTree (rules : List Rule) (actions : List Str) (level : Int) (d : Directory) : Prop where
  stray : ∀ p types, Stray d p → latest rules level p = some types →
    (∀ q ∈ d.ancestors, latest rules level q ≠ none → q.length < p.length) →
    (∀ q, Stray d q → latest rules level q ≠ none → q.length ≤ p.length) →
    registered actions types = registered actions (nearest rules level d)
  root  : ∀ types, latest rules level [slash] = some types →
    (∀ q ∈ d.ancestors, q ≠ [slash] → latest rules level q = none) → (∀ q, Stray d q → latest rules level q = none) →
    d.path = [slash] ∨ (∃ t, d.path = slash :: backslash :: t) ∨ registered actions types = []

theorem stringtrim_path_ne (d : Directory) : (stringtrim d.path).length ≠ 0 := by
  obtain ⟨t, ht⟩ := dirPath_head d.names
  have hspace : isspace slash = false := rfl
  have hr : ∃ t', rtrim (slash :: t) = slash :: t' := by
    refine ⟨rtrim t, ?_⟩
    unfold rtrim
    rw [List.reverse_cons, List.dropWhile_append]
    split
    · rename_i h
      rw [List.isEmpty_iff.1 h, List.dropWhile_cons_of_neg (by simp [hspace])]
      rfl
    · rw [List.reverse_append]; rfl
  obtain ⟨t', ht'⟩ := hr
  rw [Directory.path, ht, stringtrim, ht', ltrim, List.dropWhile_cons_of_neg (by simp [hspace])]
  exact Nat.succ_ne_zero _

theorem addRules_actions : ∀ (rules : List Rule) (a : Alerter),
    (rules.foldl (fun a r => a.addRule r.level r.dir.path r.types) a).actions = a.actions
  | [], _ => rfl
  | r :: rules, a => by
    rw [List.foldl_cons, addRules_actions rules]
    unfold Alerter.addRule
    split <;> rfl

theorem addRules_conf (level : Int) (dir : Str) : ∀ (rules : List Rule) (a : Alerter),
    (rules.foldl (fun a r => a.addRule r.level r.dir.path r.types) a).conf (dir, level) =
      (latest rules level dir).or (a.conf (dir, level))
  | [], a => rfl
  | r :: rules, a => by
    rw [List.foldl_cons, addRules_conf level dir rules, Alerter.addRule, if_neg (stringtrim_path_ne r.dir), latest, latest,
      List.reverse_cons, List.find?_append]
    cases rules.reverse.find? (fun r => r.level == level && r.dir.path == dir) with
    | some r' => rfl
    | none =>
      by_cases hr : r.level = level ∧ r.dir.path = dir
      · obtain ⟨rfl, rfl⟩ := hr
        simp
      · have hkey : (dir, level) ≠ (r.dir.path, r.level) := fun h => by
          obtain ⟨h1, h2⟩ := Prod.mk.inj h
          exact hr ⟨h2.symm, h1.symm⟩
        have hfind : (r.level == level && r.dir.path == dir) = false := by
          simpa [not_and] using hr
        simp [hfind, Function.update_of_ne hkey]

theorem addActions_contains (it : Str) : ∀ (actions : List Str) (a : Alerter),
    (actions.foldl Alerter.addAction a).actions.contains it = (actions.contains it || a.actions.contains it)
  | [], a => by simp
  | type :: actions, a => by
    rw [List.foldl_cons, addActions_contains it actions, Alerter.addAction, List.contains_cons, List.contains_cons,
      Bool.or_left_comm, Bool.or_assoc]

theorem findRule_alerterOf (rules : List Rule) (actions : List Str) (level : Int) :
    (alerterOf rules actions).findRule level = latest rules level := by
  funext dir
  have hconf : ∀ (actions : List Str) (a : Alerter), (actions.foldl Alerter.addAction a).conf = a.conf := fun actions => by
    induction actions with
    | nil => exact fun _ => rfl
    | cons type actions ih => exact fun a => ih (a.addAction type)
  rw [Alerter.findRule, alerterOf, addRules_conf, hconf]
  exact Option.or_none

theorem alert_alerterOf (rules : List Rule) (actions : List Str) (level : Int) (dir name : Str) :
    (alerterOf rules actions).alert level dir name =
      (registered actions (((visited dir).findSome? (latest rules level)).getD [])).map
        (fun it => ⟨it, level, dir, name⟩) := by
  have hreg : (alerterOf rules actions).actions.contains = actions.contains := by
    funext it
    rw [alerterOf, addRules_actions, addActions_contains]
    simp [newAlerter]
  rw [Alerter.alert, lookUp_eq, findRule_alerterOf]
  cases (visited dir).findSome? (latest rules level) with
  | none => rfl
  | some types => simp only [Option.getD_some, registered, hreg]

theorem latest_nil (rules : List Rule) (level : Int) : latest rules level [] = none := by
  rw [latest, Option.map_eq_none_iff, List.find?_eq_none]
  intro r _ h
  rw [Bool.and_eq_true, beq_iff_eq, beq_iff_eq] at h
  exact dirPath_ne_nil r.dir.names h.2

/-- Of the prefixes of a directory no two are of one length. -/
theorem eq_of_prefix {p q s : Str} (hp : p <+: s) (hq : q <+: s) (h : p.length = q.length) : p = q :=
  (List.prefix_of_prefix_length_le hp hq (Nat.le_of_eq h)).eq_of_length h

/-- A string of the walk that has a rule is an ancestor or a stray one. -/
theorem visited_cases (d : Directory) (p : Str) (hp : p ∈ visited d.path) (hne : p ≠ []) :
    p ∈ d.ancestors ∨ Stray d p := by
  rcases (mem_visited p d.path).1 hp with rfl | ⟨t, c, hc, ht⟩
  · exact Or.inl ((mem_ancestors d _).2 (Or.inl rfl))
  · by_cases hroot : p = [slash]
    · exact Or.inl ((mem_ancestors d p).2 (Or.inr (Or.inl hroot)))
    · simp only [isSep, Bool.or_eq_true, beq_iff_eq] at hc
      rcases hc with rfl | rfl
      · exact Or.inl ((mem_ancestors d p).2 (Or.inr (Or.inr ⟨hne, t, ht⟩)))
      · exact Or.inr ⟨hroot, t, ht⟩

theorem visited_of_stray (d : Directory) (p : Str) (h : Stray d p) : p ∈ visited d.path := by
  obtain ⟨-, t, ht⟩ := h
  exact (mem_visited p d.path).2 (Or.inr ⟨t, backslash, rfl, ht⟩)

theorem visited_of_ancestor (d : Directory) (p : Str) (h : p ∈ d.ancestors) (hroot : p ≠ [slash]) :
    p ∈ visited d.path := by
  rcases (mem_ancestors d p).1 h with h | h | ⟨-, t, ht⟩
  · exact (mem_visited p d.path).2 (Or.inl h)
  · exact absurd h hroot
  · exact (mem_visited p d.path).2 (Or.inr ⟨t, slash, rfl, ht⟩)

theorem root_mem_ancestors (d : Directory) : [slash] ∈ d.ancestors := (mem_ancestors d _).2 (Or.inr (Or.inl rfl))

/-- The walk gets to `/` from there, and past a first name that starts with a backslash. -/
theorem root_visited_iff (d : Directory) :
    [slash] ∈ visited d.path ↔ d.path = [slash] ∨ ∃ t, d.path = slash :: backslash :: t := by
  rw [mem_visited]
  constructor
  · rintro (h | ⟨t, c, hc, ht⟩)
    · exact Or.inl h.symm
    · simp only [isSep, Bool.or_eq_true, beq_iff_eq] at hc
      rcases hc with rfl | rfl
      · exfalso
        have hanc : ∀ names : List Str, (∀ n ∈ names, n ≠ [] ∧ slash ∉ n) → joined names ≠ [slash] ++ slash :: t :=
          fun names hn h => by
            obtain ⟨up, hsuf, hup, hp⟩ :=
              joined_cut [slash] t (List.cons_ne_nil _ _) names (fun n hm => (hn n hm).2) h
            cases up with
            | nil => exact hup rfl
            | cons n up =>
              have hpos : 0 < n.length := List.length_pos_iff.2 (hn n (hsuf.subset List.mem_cons_self)).1
              have := congrArg List.length hp
              simp only [joined, List.length_append, List.length_cons, List.length_nil] at this
              omega
        rw [Directory.path, dirPath] at ht
        split at ht
        · simp at ht
        · exact hanc d.names (fun n hn => ⟨(d.normal n hn).1, (d.normal n hn).2.1⟩) ht
      · exact Or.inr ⟨t, ht⟩
  · rintro (h | ⟨t, ht⟩)
    · exact Or.inl h.symm
    · exact Or.inr ⟨t, backslash, rfl, ht⟩

theorem prefix_of_stray (d : Directory) (p : Str) (h : Stray d p) : p <+: d.path := by
  obtain ⟨-, t, ht⟩ := h
  exact ⟨backslash :: t, ht.symm⟩

theorem prefix_of_ancestor (d : Directory) (p : Str) (h : p ∈ d.ancestors) : p <+: d.path := by
  rcases (mem_ancestors d p).1 h with rfl | rfl | ⟨-, t, ht⟩
  · exact List.prefix_refl _
  · obtain ⟨t, ht⟩ := dirPath_head d.names
    exact ⟨t, ht.symm⟩
  · exact ⟨slash :: t, ht.symm⟩

/-- An ancestor is no stray string. -/
theorem not_stray_of_ancestor (d : Directory) (p : Str) (h : p ∈ d.ancestors) : ¬ Stray d p := by
  rintro ⟨hroot, t, ht⟩
  rcases (mem_ancestors d p).1 h with h | h | ⟨-, u, hu⟩
  · rw [← h] at ht
    have := congrArg List.length ht
    rw [List.length_append, List.length_cons] at this
    omega
  · exact hroot h
  · rw [hu, List.append_cancel_left_eq, List.cons.injEq] at ht
    exact absurd ht.1 (by decide)

theorem stray_length (d : Directory) (p : Str) (h : Stray d p) : 1 < p.length := by
  have hpre := prefix_of_stray d p h
  obtain ⟨hroot, t, ht⟩ := h
  obtain ⟨u, hu⟩ := dirPath_head d.names
  rw [Directory.path, hu] at ht hpre
  match p, hroot, ht, hpre with
  | [], _, ht, _ =>
    simp only [List.nil_append, List.cons.injEq] at ht
    exact absurd ht.1 (by decide)
  | [c], hroot, ht, _ =>
    simp only [List.cons_append, List.cons.injEq] at ht
    exact absurd (by rw [ht.1]) hroot
  | _ :: _ :: _, _, _, _ =>
    simp only [List.length_cons]
    omega

section

variable (rules : List Rule) (actions : List Str) (level : Int) (d : Directory)

/-- A walk that stops at an ancestor has found the nearest directory. -/
theorem nearest_of_ancestor (p : Str) (types : List Str) (hp : p ∈ d.ancestors) (ht : latest rules level p = some types)
    (hmax : ∀ q ∈ visited d.path, latest rules level q ≠ none → q.length ≤ p.length) :
    nearest rules level d = types := by
  have hfind : d.ancestors.findSome? (latest rules level) = some types := by
    refine (findSome?_longest _ List.length types _ (ancestors_shorter d)).2 ⟨p, hp, ht, fun q hq hqr => ?_⟩
    by_cases hroot : q = [slash]
    · have hpos : 0 < p.length := by
        rw [List.length_pos_iff]
        rintro rfl
        rw [latest_nil] at ht; cases ht
      rw [hroot]
      exact hpos
    · exact hmax q (visited_of_ancestor d q hq hroot) hqr
  rw [nearest, hfind]
  rfl

/-- A walk that finds nothing leaves only the rule of `/`. -/
theorem nearest_of_none (hnone : ∀ q ∈ visited d.path, latest rules level q = none) :
    nearest rules level d = (latest rules level [slash]).getD [] := by
  have hroot : ∀ q ∈ d.ancestors, q ≠ [slash] → latest rules level q = none := fun q hq hne =>
    hnone q (visited_of_ancestor d q hq hne)
  rw [nearest]
  cases hr : latest rules level [slash] with
  | none =>
    rw [List.findSome?_eq_none_iff.2 (fun q hq => ?_)]
    by_cases h : q = [slash]
    · rw [h, hr]
    · exact hroot q hq h
  | some types =>
    have hfind : d.ancestors.findSome? (latest rules level) = some types := by
      refine (findSome?_longest _ List.length types _ (ancestors_shorter d)).2
        ⟨[slash], root_mem_ancestors d, hr, fun q hq hqr => ?_⟩
      by_cases h : q = [slash]
      · rw [h]
      · exact absurd (hroot q hq h) hqr
    rw [hfind]

/-- The walk stops at an ancestor: nothing of `KeepsToTree` is left to ask. -/
theorem keeps_of_ancestor (p : Str) (hp : p ∈ d.ancestors) (hvis : p ∈ visited d.path) (hr : latest rules level p ≠ none)
    (hmax : ∀ q ∈ visited d.path, latest rules level q ≠ none → q.length ≤ p.length) :
    KeepsToTree rules actions level d where
  stray q types hq ht hanc _ := by
    have h1 := hmax q (visited_of_stray d q hq) (by rw [ht]; exact Option.some_ne_none _)
    have h2 := hanc p hp hr
    omega
  root types ht hanc _ := by
    by_cases hroot : p = [slash]
    · rcases (root_visited_iff d).1 (hroot ▸ hvis) with h | h
      · exact Or.inl h
      · exact Or.inr (Or.inl h)
    · exact absurd (hanc p hp hroot) hr

/-- The walk stops at a stray string: its actions have to be those of the nearest directory. -/
theorem keeps_of_stray (p : Str) (types : List Str) (hp : Stray d p) (ht : latest rules level p = some types)
    (hmax : ∀ q ∈ visited d.path, latest rules level q ≠ none → q.length ≤ p.length) :
    KeepsToTree rules actions level d ↔ registered actions types = registered actions (nearest rules level d) := by
  have hr : latest rules level p ≠ none := by rw [ht]; exact Option.some_ne_none _
  constructor
  · intro h
    refine h.stray p types hp ht (fun q hq hqr => ?_) (fun q hq hqr => hmax q (visited_of_stray d q hq) hqr)
    by_cases hroot : q = [slash]
    · rw [hroot]
      exact stray_length d p hp
    · refine Nat.lt_of_le_of_ne (hmax q (visited_of_ancestor d q hq hroot) hqr) (fun hlen => ?_)
      have heq := eq_of_prefix (prefix_of_ancestor d q hq) (prefix_of_stray d p hp) hlen
      exact not_stray_of_ancestor d q hq (heq ▸ hp)
  · intro h
    refine ⟨fun q ts hq hts _ hlong => ?_, fun ts _ _ hstray => absurd (hstray p hp) hr⟩
    have h1 := hlong p hp hr
    have h2 := hmax q (visited_of_stray d q hq) (by rw [hts]; exact Option.some_ne_none _)
    have heq := eq_of_prefix (prefix_of_stray d q hq) (prefix_of_stray d p hp) (Nat.le_antisymm h2 h1)
    rw [heq, ht] at hts
    cases hts
    exact h

/-- The walk finds nothing: the rule of `/`, which it has not tried, has to have no actions. -/
theorem keeps_of_none (hnone : ∀ q ∈ visited d.path, latest rules level q = none) :
    KeepsToTree rules actions level d ↔ registered actions (nearest rules level d) = [] := by
  rw [nearest_of_none rules level d hnone]
  have hanc : ∀ q ∈ d.ancestors, q ≠ [slash] → latest rules level q = none := fun q hq hne =>
    hnone q (visited_of_ancestor d q hq hne)
  have hstray : ∀ q, Stray d q → latest rules level q = none := fun q hq => hnone q (visited_of_stray d q hq)
  constructor
  · intro h
    cases hr : latest rules level [slash] with
    | none => rfl
    | some types =>
      have hnot : ¬ [slash] ∈ visited d.path := fun hv => by rw [hnone _ hv] at hr; cases hr
      rcases h.root types hr hanc hstray with hd | hd | hd
      · exact absurd ((root_visited_iff d).2 (Or.inl hd)) hnot
      · exact absurd ((root_visited_iff d).2 (Or.inr hd)) hnot
      · exact hd
  · intro h
    refine ⟨fun q ts hq hts _ _ => ?_, fun types ht _ _ => ?_⟩
    · rw [hstray q hq] at hts; cases hts
    · rw [ht] at h
      exact Or.inr (Or.inr h)

end

/-- What the tree says: the registered actions of the nearest directory, each once and in order. -/
def alertOfTree (rules : List Rule) (actions : List Str) (level : Int) (d : Directory) (name : Str) : List ActionCall :=
  (registered actions (nearest rules level d)).map (fun it => ⟨it, level, d.path, name⟩)

/-- **An alert follows the nearest directory exactly when the walk keeps to the tree.** -/
theorem alert_nearest_iff (rules : List Rule) (actions : List Str) (level : Int) (d : Directory) (name : Str) :
    (alerterOf rules actions).alert level d.path name = alertOfTree rules actions level d name ↔
      KeepsToTree rules actions level d := by
  have hmap : ∀ l l' : List Str, l.map (fun it => (⟨it, level, d.path, name⟩ : ActionCall)) =
      l'.map (fun it => ⟨it, level, d.path, name⟩) ↔ l = l' := fun l l' =>
    List.map_inj_right (fun _ _ h => congrArg ActionCall.type h)
  rw [alert_alerterOf, alertOfTree, hmap]
  cases hfind : (visited d.path).findSome? (latest rules level) with
  | none =>
    have hnone := List.findSome?_eq_none_iff.1 hfind
    rw [keeps_of_none rules actions level d hnone]
    exact eq_comm
  | some types =>
    obtain ⟨p, hp, ht, hmax⟩ := (findSome?_longest _ List.length types _ (visited_shorter d.path)).1 hfind
    have hne : p ≠ [] := by
      rintro rfl
      rw [latest_nil] at ht; cases ht
    rw [Option.getD_some]
    rcases visited_cases d p hp hne with hanc | hstray
    · have hr : latest rules level p ≠ none := by rw [ht]; exact Option.some_ne_none _
      rw [nearest_of_ancestor rules level d p types hanc ht hmax]
      exact iff_of_true rfl (keeps_of_ancestor rules actions level d p hanc hp hr hmax)
    · exact (keeps_of_stray rules actions level d p types hstray ht hmax).symm

def rootDirectory : Directory := ⟨[], fun _ h => absurd h List.not_mem_nil⟩

def etcDirectory : Directory := ⟨[ascii "etc"], by decide +kernel⟩

/-- The rule of `/` is not found from `/etc`. -/
theorem root_rule_missed : ¬ ∀ (rules : List Rule) (actions : List Str) (level : Int) (d : Directory) (name : Str),
    (alerterOf rules actions).alert level d.path name = alertOfTree rules actions level d name := by
  intro h
  have hrun := h [⟨2, rootDirectory, [ascii "log"]⟩] [ascii "log"] 2 etcDirectory (ascii "/etc/a")
  rw [alert_alerterOf] at hrun
  exact absurd hrun (by decide +kernel)

end CheckRealtime
