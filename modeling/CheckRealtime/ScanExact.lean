import CheckRealtime.ScanTree
/-!
# ScanExact — the scan of a tree that stands still

What `EntryIterator::next` returns until its empty name, over a tree in which every `lstat` and `opendir` succeeds and
every path has room.  `scan_exact`: the walk ends, and it has returned the directories that are reached and their
non-directories, each once, and every directory before its children.
-/
namespace CheckRealtime

open Relation (ReflTransGen)

/-! ## The tree -/

/-- `readdir` returns `n` in `dir`, and it is none of the two dots. -/
def FileSys.Lists (fs : FileSys) (dir n : Str) : Prop := ∃ names, fs.opendir dir = some names ∧ n ∈ names ∧ isDot n = false

/-- The paths of the tree under `root`, excluded or not. -/
inductive FileSys.Below (fs : FileSys) (root : Str) : Str → Prop where
  | root : Below fs root root
  | child {dir n : Str} (h : Below fs root dir) (hdir : isDir fs dir = true) (hn : fs.Lists dir n) :
    Below fs root (withSlash dir ++ n)

/-- Under `root` every `lstat` and `opendir` succeeds, no directory lists a name twice, and every path has at most 4092
bytes. -/
structure FileSys.IsTree (fs : FileSys) (root : Str) : Prop where
  empty   : fs.lstat [] = .error ENOENT
  lstat   : ∀ p, fs.Below root p → ∃ st, fs.lstat p = .ok st
  opendir : ∀ p, fs.Below root p → isDir fs p = true → ∃ names, fs.opendir p = some names
  once    : ∀ p names, fs.Below root p → fs.opendir p = some names → (names.filter (fun n => !isDot n)).Nodup
  names   : ∀ p n, fs.Below root p → fs.Lists p n → n ≠ [] ∧ slash ∉ n
  short   : ∀ p, fs.Below root p → p.length ≤ 4092

/-- `next`, until it returns an empty name. -/
def drain (fs : FileSys) (isInteresting : Str → Bool) (recursive : Bool) : Nat → List Str → Option (List Entry)
  | 0, _            => none
  | fuel + 1, queue =>
    match next fs isInteresting recursive queue with
    | none            => none
    | some (entry, queue) =>
      if entry.name.length = 0 then some [] else (drain fs isInteresting recursive fuel queue).map (entry :: ·)

section

variable (E : ScanEnv) (recursive : Bool) (root : Str)

/-- The directories a scan is to return: the root, and with recursion the subdirectories, down to the excluded ones. -/
inductive Reached : Str → Prop where
  | root (hmon : E.needMon root = true) : Reached root
  | child {dir n : Str} (h : Reached dir) (hrec : recursive = true) (hn : E.fs.Lists dir n)
      (hdir : isDir E.fs (withSlash dir ++ n) = true) (hmon : E.needMon (withSlash dir ++ n) = true) :
    Reached (withSlash dir ++ n)

/-- The entries a scan is to return. -/
def Wanted (e : Entry) : Prop :=
  (e.type = 1 ∧ Reached E recursive root e.name) ∨
  (e.type = 0 ∧ ∃ dir n, Reached E recursive root dir ∧ E.fs.Lists dir n ∧ e.name = withSlash dir ++ n ∧
    isDir E.fs e.name = false)

variable {E recursive root}

theorem below_length (h : E.fs.IsTree root) (p : Str) (hp : E.fs.Below root p) :
    p = root ∨ (p.getLast? ≠ some slash ∧ root.length < p.length) := by
  induction hp with
  | root => exact Or.inl rfl
  | @child dir n hdirp hdir hn ih =>
    obtain ⟨hne, hsl⟩ := h.names dir n hdirp hn
    have hlen := withSlash_length_le dir
    have hpos : 0 < n.length := List.length_pos_iff.2 hne
    refine Or.inr ⟨?_, ?_⟩
    · rw [List.getLast?_append_of_ne_nil _ hne]
      exact fun hlast => hsl (List.mem_of_getLast? hlast)
    · rw [List.length_append]
      rcases ih with rfl | ⟨-, ih⟩
      · omega
      · omega

theorem below_ne_nil (h : E.fs.IsTree root) (p : Str) (hp : E.fs.Below root p) : p ≠ [] := by
  rintro rfl
  obtain ⟨st, hst⟩ := h.lstat [] hp
  rw [h.empty] at hst
  cases hst

/-- Two directories of the tree with the same entry are the same. -/
theorem child_inj (h : E.fs.IsTree root) {d d' n n' : Str} (hd : E.fs.Below root d) (hd' : E.fs.Below root d')
    (hn : slash ∉ n) (hn' : slash ∉ n') (e : withSlash d ++ n = withSlash d' ++ n') : d = d' ∧ n = n' := by
  rw [withSlash_eq, withSlash_eq, List.append_assoc, List.append_assoc] at e
  obtain ⟨hstrip, hname⟩ := append_slash_inj hn hn' e
  refine ⟨?_, hname⟩
  have hshort : ∀ x y : Str, stripSlash x = stripSlash y → x = root → y.getLast? ≠ some slash →
      root.length < y.length → False := fun x y hxy hx hy hlen => by
    have hle : (stripSlash x).length ≤ x.length := by
      unfold stripSlash
      split
      · rw [List.length_dropLast]; omega
      · exact Nat.le_refl _
    have hyy : stripSlash y = y := if_neg hy
    rw [hxy, hyy, hx] at hle
    omega
  rcases below_length h d hd with hdr | ⟨hdl, hdn⟩ <;> rcases below_length h d' hd' with hdr' | ⟨hdl', hdn'⟩
  · rw [hdr, hdr']
  · exact (hshort d d' hstrip hdr hdl' hdn').elim
  · exact (hshort d' d hstrip.symm hdr' hdl hdn).elim
  · rwa [stripSlash, stripSlash, if_neg hdl, if_neg hdl'] at hstrip

/-! ## The steps of the walk -/

theorem childPath_of_below (h : E.fs.IsTree root) {dir n : Str} (hp : E.fs.Below root dir) (hdir : isDir E.fs dir = true)
    (hn : E.fs.Lists dir n) : childPath dir n = withSlash dir ++ n := by
  have hlen := h.short _ (hp.child hdir hn)
  have hle := withSlash_length_le dir
  rw [List.length_append] at hlen
  rw [childPath, List.take_of_length_le (by omega)]

/-- What a path of the tree gives of itself. -/
theorem expand_own (h : E.fs.IsTree root) (p : Str) (hp : E.fs.Below root p) (e : Entry) :
    e ∈ (expand E.fs E.needMon recursive p).1 ↔
      e.name = p ∧ ((e.type = 1 ∧ isDir E.fs p = true ∧ E.needMon p = true) ∨ (e.type = 0 ∧ isDir E.fs p = false)) := by
  obtain ⟨t, name⟩ := e
  rw [expand]
  by_cases hdir : isDir E.fs p = true
  · rw [if_pos hdir]
    by_cases hmon : E.needMon p = true
    · obtain ⟨names, hopen⟩ := h.opendir p hp hdir
      simp [hmon, hopen, hdir, and_comm]
    · simp [hmon, hdir]
  · simp [hdir, and_comm]

/-- Where a path of the tree leads. -/
theorem expand_step (h : E.fs.IsTree root) (p : Str) (hp : E.fs.Below root p) (b : Str) :
    Walk.Step (expand E.fs E.needMon recursive) p b ↔
      isDir E.fs p = true ∧ E.needMon p = true ∧
        ∃ n, E.fs.Lists p n ∧ b = withSlash p ++ n ∧ (isDir E.fs b = false ∨ recursive = true) := by
  rw [Walk.Step, expand]
  by_cases hdir : isDir E.fs p = true
  · rw [if_pos hdir]
    by_cases hmon : E.needMon p = true
    · obtain ⟨names, hopen⟩ := h.opendir p hp hdir
      simp only [hmon, hopen, hdir, true_and, Bool.not_true, Bool.false_eq_true, if_false, pushed, List.mem_reverse,
        List.mem_filter, List.mem_map, Bool.or_eq_true, Bool.not_eq_true']
      constructor
      · rintro ⟨⟨n, ⟨hn, hdot⟩, rfl⟩, hb⟩
        have hl : E.fs.Lists p n := ⟨names, hopen, hn, hdot⟩
        exact ⟨n, hl, childPath_of_below h hp hdir hl, hb⟩
      · rintro ⟨n, hl, rfl, hb⟩
        have hc := childPath_of_below h hp hdir hl
        obtain ⟨names', hopen', hn, hdot⟩ := hl
        rw [hopen] at hopen'
        cases hopen'
        exact ⟨⟨n, ⟨hn, hdot⟩, hc⟩, hb⟩
    · simp [hmon]
  · simp [hdir]

theorem below_step (h : E.fs.IsTree root) (a b : Str) (ha : E.fs.Below root a)
    (hab : Walk.Step (expand E.fs E.needMon recursive) a b) : E.fs.Below root b ∧ height b < height a := by
  obtain ⟨hdir, -, n, hn, rfl, -⟩ := (expand_step h a ha b).1 hab
  have hb := ha.child hdir hn
  have hpos : 0 < n.length := List.length_pos_iff.2 (h.names a n ha hn).1
  have hlen := h.short _ hb
  have hle := withSlash_length_le a
  rw [List.length_append] at hlen
  refine ⟨hb, ?_⟩
  rw [height, height, List.length_append, PATH_MAX]
  omega

theorem entriesFrom_below (h : E.fs.IsTree root) (p : Str) (hp : E.fs.Below root p) :
    entriesFrom E.fs E.needMon recursive p = (expand E.fs E.needMon recursive p).1 ++
      (expand E.fs E.needMon recursive p).2.flatMap (entriesFrom E.fs E.needMon recursive) :=
  Walk.all_eq_on _ height (E.fs.Below root) (below_step h) p hp

/-- **`next` until the empty name returns the entries of the walk**, whatever paths of the tree are on the stack. -/
theorem drain_eq (h : E.fs.IsTree root) : ∀ (fuel : Nat) (queue : List Str), (∀ p ∈ queue, E.fs.Below root p) →
    (queue.flatMap (entriesFrom E.fs E.needMon recursive)).length < fuel →
      drain E.fs E.needMon recursive fuel queue = some (queue.flatMap (entriesFrom E.fs E.needMon recursive))
  | 0, _, _, hf => absurd hf (Nat.not_lt_zero _)
  | _ + 1, [], _, _ => rfl
  | fuel + 1, p :: queue, hq, hf => by
    have hp := hq p List.mem_cons_self
    have hrest : ∀ q ∈ queue, E.fs.Below root q := fun q hm => hq q (List.mem_cons_of_mem p hm)
    have hroom : isDir E.fs p = true → E.needMon p = true → ∀ names, E.fs.opendir p = some names → ∀ n ∈ names,
        isDot n = false → p.length ≤ 4094 := fun _ _ _ _ _ _ _ => Nat.le_trans (h.short p hp) (by decide)
    rw [List.flatMap_cons, entriesFrom_below h p hp] at hf ⊢
    rcases next_cons E.fs E.needMon recursive p queue hroom with ⟨hexp, hnext⟩ | ⟨t, hexp, hnext⟩
    · rw [hexp] at hf ⊢
      simp only [List.flatMap_nil, List.append_nil, List.nil_append] at hf ⊢
      have ih := drain_eq h (fuel + 1) queue hrest hf
      rw [drain] at ih ⊢
      rw [hnext]
      exact ih
    · have hbelow : ∀ q ∈ (expand E.fs E.needMon recursive p).2 ++ queue, E.fs.Below root q := fun q hm => by
        rcases List.mem_append.1 hm with hm | hm
        · exact (below_step h p q hp hm).1
        · exact hrest q hm
      have hne : ¬ p.length = 0 := fun h0 => below_ne_nil h p hp (List.length_eq_zero_iff.1 h0)
      rw [hexp] at hf ⊢
      simp only [List.cons_append, List.length_cons, List.length_append] at hf
      have ih := drain_eq h fuel _ hbelow (by rw [List.flatMap_append, List.length_append]; omega)
      rw [drain, hnext]
      simp only [if_neg hne, ih, Option.map_some, List.flatMap_append, List.cons_append, List.nil_append]

/-! ## Which entries -/

theorem below_of_reached (h : E.fs.IsTree root) (hroot : isDir E.fs root = true) (d : Str)
    (hd : Reached E recursive root d) : E.fs.Below root d ∧ isDir E.fs d = true ∧ E.needMon d = true ∧
      ReflTransGen (Walk.Step (expand E.fs E.needMon recursive)) root d := by
  induction hd with
  | root hmon => exact ⟨.root, hroot, hmon, .refl⟩
  | @child dir n _ hrec hn hdir hmon ih =>
    obtain ⟨hb, hd, hm, hreach⟩ := ih
    exact ⟨hb.child hd hn, hdir, hmon, hreach.tail ((expand_step h dir hb _).2 ⟨hd, hm, n, hn, rfl, Or.inr hrec⟩)⟩

theorem reached_of_reach (h : E.fs.IsTree root) (b : Str)
    (hb : ReflTransGen (Walk.Step (expand E.fs E.needMon recursive)) root b) : E.fs.Below root b ∧
      (b = root ∨ ∃ dir n, Reached E recursive root dir ∧ E.fs.Lists dir n ∧ b = withSlash dir ++ n ∧
        (isDir E.fs b = false ∨ recursive = true)) := by
  induction hb with
  | refl => exact ⟨.root, Or.inl rfl⟩
  | @tail b c _ hstep ih =>
    obtain ⟨hbelow, hb⟩ := ih
    refine ⟨(below_step h b c hbelow hstep).1, Or.inr ?_⟩
    obtain ⟨hdir, hmon, n, hn, hc, hpush⟩ := (expand_step h b hbelow c).1 hstep
    refine ⟨b, n, ?_, hn, hc, hpush⟩
    rcases hb with rfl | ⟨dir, m, hr, hm, rfl, hfile | hrec⟩
    · exact .root hmon
    · rw [hdir] at hfile; cases hfile
    · exact .child hr hrec hm hdir hmon

/-- **The walk returns what it is to return, and nothing else.** -/
theorem mem_entriesFrom_iff (h : E.fs.IsTree root) (hroot : isDir E.fs root = true) (e : Entry) :
    e ∈ entriesFrom E.fs E.needMon recursive root ↔ Wanted E recursive root e := by
  rw [entriesFrom, Walk.mem_all_on _ height (E.fs.Below root) (below_step h) e root .root]
  constructor
  · rintro ⟨b, hreach, he⟩
    obtain ⟨hbelow, hb⟩ := reached_of_reach h b hreach
    obtain ⟨rfl, ⟨ht, hdir, hmon⟩ | ⟨ht, hfile⟩⟩ := (expand_own h b hbelow e).1 he
    · refine Or.inl ⟨ht, ?_⟩
      rcases hb with rfl | ⟨dir, n, hr, hn, hname, hfile | hrec⟩
      · exact .root hmon
      · rw [hdir] at hfile; cases hfile
      · rw [hname] at hdir hmon ⊢
        exact .child hr hrec hn hdir hmon
    · refine Or.inr ⟨ht, ?_⟩
      rcases hb with rfl | ⟨dir, n, hr, hn, hname, -⟩
      · rw [hroot] at hfile; cases hfile
      · exact ⟨dir, n, hr, hn, hname, hfile⟩
  · rintro (⟨ht, hr⟩ | ⟨ht, dir, n, hr, hn, hname, hfile⟩)
    · obtain ⟨hb, hdir, hmon, hreach⟩ := below_of_reached h hroot e.name hr
      exact ⟨e.name, hreach, (expand_own h _ hb e).2 ⟨rfl, Or.inl ⟨ht, hdir, hmon⟩⟩⟩
    · obtain ⟨hb, hdir, hmon, hreach⟩ := below_of_reached h hroot dir hr
      have hstep : Walk.Step (expand E.fs E.needMon recursive) dir e.name :=
        (expand_step h dir hb e.name).2 ⟨hdir, hmon, n, hn, hname, Or.inl hfile⟩
      exact ⟨e.name, hreach.tail hstep, (expand_own h _ (below_step h dir _ hb hstep).1 e).2 ⟨rfl, Or.inr ⟨ht, hfile⟩⟩⟩

/-! ## Once, and the directory first -/

/-- The path of an entry is `a` or goes on below it. -/
def Under (a : Str) (e : Entry) : Prop := e.name = a ∨ ∃ t, e.name = withSlash a ++ t

/-- What is under an entry of a directory has its name after the directory. -/
theorem under_child {dir n : Str} {e : Entry} (hne : n ≠ []) (hsl : slash ∉ n) (he : Under (withSlash dir ++ n) e) :
    ∃ t, e.name = withSlash dir ++ (n ++ t) ∧ (n ++ t).takeWhile (· ≠ slash) = n := by
  have hall : ∀ c ∈ n, decide (c ≠ slash) = true := fun c hc => decide_eq_true (fun e => hsl (e ▸ hc))
  have hlast : (withSlash dir ++ n).getLast? ≠ some slash := by
    rw [List.getLast?_append_of_ne_nil _ hne]
    exact fun h => hsl (List.mem_of_getLast? h)
  rcases he with he | ⟨t, he⟩
  · refine ⟨[], by rw [he, List.append_nil], ?_⟩
    rw [List.append_nil]
    exact List.takeWhile_eq_self_iff.2 hall
  · rw [withSlash, if_neg hlast] at he
    refine ⟨slash :: t, by rw [he]; simp, ?_⟩
    rw [List.takeWhile_append_of_pos hall, List.takeWhile_cons_of_neg (by simp), List.append_nil]

/-- A path gives no entry or one, of its own name. -/
theorem own_cases (fs : FileSys) (isInteresting : Str → Bool) (recursive : Bool) (a : Str) :
    (expand fs isInteresting recursive a).1 = [] ∨ ∃ type, (expand fs isInteresting recursive a).1 = [⟨type, a⟩] := by
  unfold expand
  split
  · split
    · exact Or.inl rfl
    · split
      · exact Or.inl rfl
      · exact Or.inr ⟨1, rfl⟩
  · exact Or.inr ⟨0, rfl⟩

/-- What is under an entry is under the directory, and is not the entry of the directory itself. -/
theorem under_step (h : E.fs.IsTree root) {a b : Str} {x : Entry} (ha : E.fs.Below root a)
    (hab : Walk.Step (expand E.fs E.needMon recursive) a b) (hx : Under b x) :
    Under a x ∧ x ∉ (expand E.fs E.needMon recursive a).1 := by
  obtain ⟨-, -, n, hn, rfl, -⟩ := (expand_step h a ha b).1 hab
  obtain ⟨hne, hsl⟩ := h.names a n ha hn
  obtain ⟨t, ht, -⟩ := under_child hne hsl hx
  refine ⟨Or.inr ⟨n ++ t, ht⟩, fun hown => ?_⟩
  have hname := ((expand_own h a ha x).1 hown).1
  have hlen := withSlash_length_le a
  have hpos : 0 < n.length := List.length_pos_iff.2 hne
  rw [hname] at ht
  have := congrArg List.length ht
  rw [List.length_append, List.length_append] at this
  omega

/-- Nothing is under two entries of one directory. -/
theorem under_inj (h : E.fs.IsTree root) {a n m : Str} {x : Entry} (ha : E.fs.Below root a) (hn : E.fs.Lists a n)
    (hm : E.fs.Lists a m) (hxn : Under (withSlash a ++ n) x) (hxm : Under (withSlash a ++ m) x) : n = m := by
  obtain ⟨hne, hsl⟩ := h.names a n ha hn
  obtain ⟨hme, hml⟩ := h.names a m ha hm
  obtain ⟨t, ht, hnt⟩ := under_child hne hsl hxn
  obtain ⟨u, hu, hmu⟩ := under_child hme hml hxm
  rw [ht, List.append_cancel_left_eq] at hu
  rw [hu, hmu] at hnt
  exact hnt.symm

theorem expand_apart (h : E.fs.IsTree root) {a : Str} (ha : E.fs.Below root a) :
    (expand E.fs E.needMon recursive a).2.Pairwise (fun b c => ∀ x, Under b x → ¬ Under c x) := by
  have hpair : ∀ names, E.fs.opendir a = some names → isDir E.fs a = true →
      (pushed E.fs recursive a names).Pairwise (fun b c => ∀ x, Under b x → ¬ Under c x) := fun names hopen hdir => by
    unfold pushed
    refine List.Pairwise.filter _ (List.pairwise_map.2 ((h.once a names ha hopen).imp_of_mem ?_))
    intro n m hn hm hnm x hxn hxm
    rw [List.mem_filter, Bool.not_eq_true'] at hn hm
    have hln : E.fs.Lists a n := ⟨names, hopen, hn.1, hn.2⟩
    have hlm : E.fs.Lists a m := ⟨names, hopen, hm.1, hm.2⟩
    rw [childPath_of_below h ha hdir hln] at hxn
    rw [childPath_of_below h ha hdir hlm] at hxm
    exact hnm (under_inj h ha hln hlm hxn hxm)
  unfold expand
  split
  · rename_i hdir
    split
    · exact List.Pairwise.nil
    · split
      · exact List.Pairwise.nil
      · rename_i names hopen
        exact List.pairwise_reverse.2 ((hpair names hopen hdir).imp (fun hbc x hc hb => hbc x hb hc))
  · exact List.Pairwise.nil

theorem entriesFrom_nodup (h : E.fs.IsTree root) : (entriesFrom E.fs E.needMon recursive root).Nodup := by
  refine (Walk.nodup_upTo (expand E.fs E.needMon recursive) Under (fun a => ?_) (fun a x hx => ?_) (E.fs.Below root)
    (fun a b ha hab => (below_step h a b ha hab).1) (fun a b x ha hab hx => under_step h ha hab hx)
    (fun a ha => expand_apart h ha) _ root .root).1
  · rcases own_cases E.fs E.needMon recursive a with hown | ⟨type, hown⟩
    · rw [hown]; exact List.nodup_nil
    · rw [hown]; exact List.nodup_singleton _
  · rcases own_cases E.fs E.needMon recursive a with hown | ⟨type, hown⟩
    · rw [hown] at hx; cases hx
    · rw [hown] at hx
      exact Or.inl (by rw [List.mem_singleton.1 hx])

/-- **A directory comes before what it lists.** -/
theorem directory_first (h : E.fs.IsTree root) (hroot : isDir E.fs root = true) (pre : List Entry) (e : Entry)
    (post : List Entry) (hsplit : entriesFrom E.fs E.needMon recursive root = pre ++ e :: post) (dir n : Str)
    (hd : Reached E recursive root dir) (hn : E.fs.Lists dir n) (he : e.name = withSlash dir ++ n) :
    ⟨1, dir⟩ ∈ pre := by
  obtain ⟨hbelow, -, -, -⟩ := below_of_reached h hroot dir hd
  obtain ⟨hne, hsl⟩ := h.names dir n hbelow hn
  rcases Walk.parent_before (expand E.fs E.needMon recursive) _ root pre hsplit with hown | ⟨b, c, hb, hbc, hx, hpre⟩
  · exfalso
    have hname := ((expand_own h root .root e).1 hown).1
    have hlen := withSlash_length_le dir
    have hpos : 0 < n.length := List.length_pos_iff.2 hne
    have htotal := congrArg List.length (hname.symm.trans he)
    rw [List.length_append] at htotal
    rcases below_length h dir hbelow with rfl | ⟨-, hlong⟩ <;> omega
  · obtain ⟨hbb, -⟩ := reached_of_reach h b hb
    obtain ⟨hdir, hmon, m, hm, rfl, -⟩ := (expand_step h b hbb c).1 hbc
    have hname := ((expand_own h _ (hbb.child hdir hm) e).1 hx).1
    obtain ⟨rfl, -⟩ := child_inj h hbelow hbb hsl (h.names b m hbb hm).2 (he.symm.trans hname)
    exact hpre _ ((expand_own h dir hbelow _).2 ⟨rfl, Or.inl ⟨rfl, hdir, hmon⟩⟩)

/-- **The scan of a tree is complete, exact and ends.** -/
theorem scan_exact (E : ScanEnv) (recursive : Bool) (root : Str) (h : E.fs.IsTree root) (hroot : isDir E.fs root = true) :
    ∃ entries, (∃ least, ∀ fuel, least ≤ fuel → drain E.fs E.needMon recursive fuel [root] = some entries) ∧
      entries.Nodup ∧ (∀ e, e ∈ entries ↔ Wanted E recursive root e) ∧
      ∀ pre e post, entries = pre ++ e :: post → ∀ dir n, Reached E recursive root dir → E.fs.Lists dir n →
        e.name = withSlash dir ++ n → ⟨1, dir⟩ ∈ pre := by
  refine ⟨entriesFrom E.fs E.needMon recursive root, ⟨(entriesFrom E.fs E.needMon recursive root).length + 1, fun fuel hf => ?_⟩,
    entriesFrom_nodup h, mem_entriesFrom_iff h hroot, directory_first h hroot⟩
  have hone : [root].flatMap (entriesFrom E.fs E.needMon recursive) = entriesFrom E.fs E.needMon recursive root :=
    List.flatMap_singleton ..
  rw [← hone]
  refine drain_eq h fuel [root] (fun p hp => ?_) ?_
  · rw [List.mem_singleton.1 hp]
    exact .root
  · rw [hone]
    omega

end

/-- `/w` holds the file `f` and the directory `d`, which holds `g`. -/
def twoLevels : FileSys where
  lstat p    :=
    if p = ascii "/w/" ∨ p = ascii "/w/d" then .ok ⟨0, 0o040755, 0, 0⟩
    else if p = ascii "/w/f" ∨ p = ascii "/w/d/g" then .ok ⟨0, 0o100644, 0, 0⟩ else .error ENOENT
  opendir p  :=
    if p = ascii "/w/" then some [ascii ".", ascii "f", ascii "..", ascii "d"]
    else if p = ascii "/w/d" then some [ascii "g", ascii ".", ascii ".."] else none
  reading _  := .digest .zero
  addWatch _ := none

def twoLevelsPaths : List Str := [ascii "/w/", ascii "/w/f", ascii "/w/d", ascii "/w/d/g"]

theorem twoLevels_below (p : Str) (h : twoLevels.Below (ascii "/w/") p) :
    p ∈ twoLevelsPaths := by
  have hlists : ∀ dir ∈ twoLevelsPaths, ∀ n ∈ ((twoLevels.opendir dir).getD []).filter (fun n => !isDot n),
      withSlash dir ++ n ∈ twoLevelsPaths := by decide +kernel
  induction h with
  | root => exact List.mem_cons_self
  | @child dir n _ _ hn ih =>
    obtain ⟨names, hopen, hn, hdot⟩ := hn
    exact hlists dir ih n (by rw [hopen, Option.getD_some, List.mem_filter, hdot]; exact ⟨hn, rfl⟩)

theorem twoLevels_isTree : twoLevels.IsTree (ascii "/w/") where
  empty := by decide +kernel
  lstat p hp := by
    have h : ∀ p ∈ twoLevelsPaths, (twoLevels.lstat p).isOk = true := by decide +kernel
    have hok := h p (twoLevels_below p hp)
    cases hl : twoLevels.lstat p with
    | error e => rw [hl] at hok; cases hok
    | ok st => exact ⟨st, rfl⟩
  opendir p hp hdir := by
    have h : ∀ p ∈ twoLevelsPaths, isDir twoLevels p = true → (twoLevels.opendir p).isSome = true := by decide +kernel
    exact Option.isSome_iff_exists.1 (h p (twoLevels_below p hp) hdir)
  once p names hp hopen := by
    have h : ∀ p ∈ twoLevelsPaths, (((twoLevels.opendir p).getD []).filter (fun n => !isDot n)).Nodup := by decide +kernel
    have := h p (twoLevels_below p hp)
    rwa [hopen] at this
  names p n hp hn := by
    have h : ∀ p ∈ twoLevelsPaths, ∀ n ∈ (twoLevels.opendir p).getD [], n ≠ [] ∧ slash ∉ n := by decide +kernel
    obtain ⟨names, hopen, hn, -⟩ := hn
    exact h p (twoLevels_below p hp) n (by rw [hopen]; exact hn)
  short p hp := by
    have h : ∀ p ∈ twoLevelsPaths, p.length ≤ 4092 := by decide +kernel
    exact h p (twoLevels_below p hp)

/-- The scan of `/w/` with `/w/f` on the exclusion list, which is for directories only. -/
theorem twoLevels_scanned : ∃ entries, (∃ least, ∀ fuel, least ≤ fuel →
      drain twoLevels (ScanEnv.needMon ⟨twoLevels, [ascii "/w/f"], false, 3⟩) true fuel [ascii "/w/"] = some entries) ∧
    entries.Nodup ∧ (∀ e, e ∈ entries ↔ Wanted ⟨twoLevels, [ascii "/w/f"], false, 3⟩ true (ascii "/w/") e) ∧
    ∀ pre e post, entries = pre ++ e :: post →
      ∀ dir n, Reached ⟨twoLevels, [ascii "/w/f"], false, 3⟩ true (ascii "/w/") dir → twoLevels.Lists dir n →
        e.name = withSlash dir ++ n → ⟨1, dir⟩ ∈ pre :=
  scan_exact ⟨twoLevels, [ascii "/w/f"], false, 3⟩ true (ascii "/w/") twoLevels_isTree (by decide +kernel)

end CheckRealtime
