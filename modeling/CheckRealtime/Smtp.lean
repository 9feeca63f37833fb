import Mathlib.Data.List.Infix
/-!
# Smtp — what a receiver reads

The receiving end of a mail dialogue, on the bytes it gets.  A line ends at CRLF and nowhere else.  The two lines after
`AUTH LOGIN` are credentials; the lines after `DATA` are a message, which ends at the first line that is one dot.  A
receiver with `dots` takes the first dot off every other line of a message that starts with one.
-/
namespace Smtp

abbrev Bytes := List UInt8

def crlf : Bytes := [13, 10]
def dot : Bytes := [46]

/-! ## Lines -/

/-- The text cut at each CRLF; the last piece is what follows the last one. -/
def pieces : Bytes → List Bytes
  | []            => [[]]
  | 13 :: 10 :: s => [] :: pieces s
  | c :: s        =>
    match pieces s with
    | []      => [[c]]
    | p :: ps => (c :: p) :: ps

def unlines (ls : List Bytes) : Bytes := ls.flatMap (· ++ crlf)

@[simp] theorem unlines_nil : unlines [] = [] := rfl

@[simp] theorem unlines_cons (l : Bytes) (ls : List Bytes) : unlines (l :: ls) = l ++ crlf ++ unlines ls := rfl

@[simp] theorem unlines_append (ls ms : List Bytes) : unlines (ls ++ ms) = unlines ls ++ unlines ms :=
  List.flatMap_append

theorem pieces_ne_nil (t : Bytes) : pieces t ≠ [] := by
  fun_induction pieces t with
  | case1 => exact List.cons_ne_nil _ _
  | case2 s ih => exact List.cons_ne_nil _ _
  | case3 c s hc h ih => exact List.cons_ne_nil _ _
  | case4 c s hc p ps h ih => exact List.cons_ne_nil _ _

theorem pieces_cons {c : UInt8} {s : Bytes} (h : c = 13 → s.head? ≠ some 10) :
    ∃ p ps, pieces s = p :: ps ∧ pieces (c :: s) = (c :: p) :: ps := by
  obtain ⟨p, ps, hps⟩ := List.exists_cons_of_ne_nil (pieces_ne_nil s)
  refine ⟨p, ps, hps, ?_⟩
  rw [pieces, hps]
  rintro s' rfl rfl
  exact h rfl rfl

/-- **The pieces with their CRLF are the text and one CRLF more.** -/
theorem unlines_pieces (t : Bytes) : unlines (pieces t) = t ++ crlf := by
  fun_induction pieces t with
  | case1 => rfl
  | case2 s ih => rw [unlines_cons, ih]; rfl
  | case3 c s hc h ih => exact absurd h (pieces_ne_nil s)
  | case4 c s hc p ps h ih =>
    rw [h, unlines_cons] at ih
    rw [unlines_cons, List.cons_append, List.cons_append, ih, List.cons_append]

/-- **A CRLF in the text is a place to cut.** -/
theorem pieces_append_crlf (t s : Bytes) : pieces (t ++ (crlf ++ s)) = pieces t ++ pieces s := by
  fun_induction pieces t with
  | case1 => rfl
  | case2 t ih =>
    show [] :: pieces (t ++ (crlf ++ s)) = _
    rw [ih, List.cons_append]
  | case3 c t hc h ih => exact absurd h (pieces_ne_nil t)
  | case4 c t hc p ps h ih =>
    have hfree : c = 13 → (t ++ (crlf ++ s)).head? ≠ some 10 := fun hc13 hhead => by
      cases t with
      | nil => cases hhead
      | cons b t => exact hc t hc13 (by rw [Option.some.inj hhead])
    obtain ⟨q, qs, hq, hcons⟩ := pieces_cons hfree
    rw [ih, h, List.cons_append] at hq
    rw [List.cons_append, hcons]
    injection hq with hq hqs
    rw [hq, ← hqs, List.cons_append]

theorem pieces_of_notMem : ∀ {l : Bytes}, 13 ∉ l → pieces l = [l]
  | [], _ => rfl
  | c :: l, h => by
    rw [List.mem_cons, not_or] at h
    obtain ⟨p, ps, hps, hcons⟩ := pieces_cons (fun hc => absurd hc.symm h.1 : c = 13 → l.head? ≠ some 10)
    rw [pieces_of_notMem h.2] at hps
    injection hps with hp hps
    rw [hcons, ← hp, ← hps]

theorem pieces_unlines : ∀ {ls : List Bytes} (s : Bytes), (∀ l ∈ ls, 13 ∉ l) → pieces (unlines ls ++ s) = ls ++ pieces s
  | [], s, _ => rfl
  | l :: ls, s, h => by
    rw [unlines_cons, List.append_assoc, List.append_assoc, pieces_append_crlf,
      pieces_of_notMem (h l List.mem_cons_self), pieces_unlines s (fun m hm => h m (List.mem_cons_of_mem l hm))]
    rfl

/-! ## The receiver -/

def authLogin : Bytes := [65, 85, 84, 72, 32, 76, 79, 71, 73, 78]
def data : Bytes := [68, 65, 84, 65]

def upper (c : UInt8) : UInt8 := if 97 ≤ c && c ≤ 122 then c - 32 else c

inductive Item where
  | command (line : Bytes)
  | credential (line : Bytes)
  | message (lines : List Bytes)
  | unfinished (lines : List Bytes)
deriving DecidableEq

inductive Phase where
  | command
  | username
  | password
  | data (lines : List Bytes)

/-- The phase after a command; its case does not matter. -/
def next (line : Bytes) : Phase :=
  if line.map upper = authLogin then .username else if line.map upper = data then .data [] else .command

def unstuff (dots : Bool) (line : Bytes) : Bytes :=
  if dots = true ∧ line.head? = some 46 then line.tail else line

def reads (dots : Bool) : Phase → List Bytes → List Item
  | .command, []          => []
  | .command, line :: ls  => .command line :: reads dots (next line) ls
  | .username, []         => []
  | .username, line :: ls => .credential line :: reads dots .password ls
  | .password, []         => []
  | .password, line :: ls => .credential line :: reads dots .command ls
  | .data m, []           => [.unfinished m]
  | .data m, line :: ls   =>
    if line = dot then .message m :: reads dots .command ls else reads dots (.data (m ++ [unstuff dots line])) ls

/-- What is read, and the bytes after the last CRLF. -/
def receive (dots : Bool) (b : Bytes) : List Item × Bytes :=
  (reads dots .command (pieces b).dropLast, (pieces b).getLast (pieces_ne_nil b))

theorem receive_of_pieces (dots : Bool) {b : Bytes} {ls : List Bytes} {rest : Bytes} (h : pieces b = ls ++ [rest]) :
    receive dots b = (reads dots .command ls, rest) := by
  simp only [receive, h, List.dropLast_concat, List.getLast_concat]

theorem reads_command {dots : Bool} {line : Bytes} (h : next line = .command) (ls : List Bytes) :
    reads dots .command (line :: ls) = .command line :: reads dots .command ls := by
  rw [reads, h]

theorem reads_commands {dots : Bool} : ∀ {lines : List Bytes} (ls : List Bytes), (∀ l ∈ lines, next l = .command) →
    reads dots .command (lines ++ ls) = lines.map .command ++ reads dots .command ls
  | [], _, _ => rfl
  | line :: lines, ls, h => by
    rw [List.cons_append, reads_command (h line List.mem_cons_self),
      reads_commands ls (fun l hl => h l (List.mem_cons_of_mem line hl))]
    rfl

/-! ## How much is read -/

def Item.size : Item → Nat
  | .command line     => line.length + 2
  | .credential line  => line.length + 2
  | .message lines    => (unlines lines).length + 3
  | .unfinished lines => (unlines lines).length

def Phase.size : Phase → Nat
  | .data lines => (unlines lines).length
  | _           => 0

def size : List Item → Nat
  | []      => 0
  | i :: is => i.size + size is

@[simp] theorem size_nil : size [] = 0 := rfl

@[simp] theorem size_cons (i : Item) (is : List Item) : size (i :: is) = i.size + size is := rfl

@[simp] theorem size_append : ∀ (is js : List Item), size (is ++ js) = size is + size js
  | [], js      => (Nat.zero_add _).symm
  | i :: is, js => by rw [List.cons_append, size_cons, size_cons, size_append is js, Nat.add_assoc]

theorem next_size (line : Bytes) : (next line).size = 0 := by
  unfold next
  split
  · rfl
  · split <;> rfl

theorem unstuff_length_le (dots : Bool) (line : Bytes) : (unstuff dots line).length ≤ line.length := by
  unfold unstuff
  split
  · exact List.length_tail ▸ Nat.sub_le _ _
  · exact Nat.le_refl _

theorem size_reads_le (dots : Bool) (phase : Phase) (ls : List Bytes) :
    size (reads dots phase ls) ≤ phase.size + (unlines ls).length := by
  have hcrlf : crlf.length = 2 := rfl
  fun_induction reads dots phase ls with
  | case1 => exact Nat.zero_le _
  | case2 line ls ih =>
    rw [next_size] at ih
    simp only [size_cons, Item.size, unlines_cons, List.length_append, hcrlf, Phase.size]
    omega
  | case3 => exact Nat.zero_le _
  | case4 line ls ih =>
    simp only [size_cons, Item.size, unlines_cons, List.length_append, hcrlf, Phase.size] at ih ⊢
    omega
  | case5 => exact Nat.zero_le _
  | case6 line ls ih =>
    simp only [size_cons, Item.size, unlines_cons, List.length_append, hcrlf, Phase.size] at ih ⊢
    omega
  | case7 m => exact Nat.le_refl _
  | case8 m ls ih =>
    have hdot : dot.length = 1 := rfl
    simp only [size_cons, Item.size, unlines_cons, List.length_append, hcrlf, hdot, Phase.size] at ih ⊢
    omega
  | case9 m line ls hne ih =>
    have hle := unstuff_length_le dots line
    simp only [Phase.size, unlines_append, unlines_cons, unlines_nil, List.length_append, List.length_nil, hcrlf] at ih ⊢
    omega

/-- **A reading holds no more than the bytes read.** -/
theorem size_receive_le (dots : Bool) (b : Bytes) :
    size (receive dots b).1 + (receive dots b).2.length ≤ b.length := by
  have hle := size_reads_le dots .command (pieces b).dropLast
  have hb := congrArg List.length (unlines_pieces b)
  have hne := pieces_ne_nil b
  rw [← List.dropLast_concat_getLast hne, unlines_append] at hb
  simp only [unlines_cons, unlines_nil, List.length_append, List.length_nil] at hb
  simp only [Phase.size] at hle
  simp only [receive]
  omega

/-! ## Messages -/

/-- A receiver takes the line as a line of the message, and as it stands. -/
def Intact (dots : Bool) (line : Bytes) : Prop := line ≠ dot ∧ unstuff dots line = line

theorem unstuff_eq_iff (dots : Bool) (line : Bytes) : unstuff dots line = line ↔ ¬ (dots = true ∧ line.head? = some 46) := by
  unfold unstuff
  split
  · rename_i h
    cases line with
    | nil => cases h.2
    | cons c l => exact ⟨fun hl => absurd hl.symm (List.cons_ne_self c l), fun hn => absurd h hn⟩
  · rename_i h
    exact ⟨fun _ => h, fun _ => rfl⟩

theorem intact_of_head {dots : Bool} {line : Bytes} (h : line.head? ≠ some 46) : Intact dots line :=
  ⟨fun hd => h (hd ▸ rfl), (unstuff_eq_iff dots line).2 (fun hn => h hn.2)⟩

theorem intact_of_cons {dots : Bool} {c : UInt8} (h : c ≠ 46) (line : Bytes) : Intact dots (c :: line) :=
  intact_of_head (fun he => h (Option.some.inj he))

theorem intact_nil (dots : Bool) : Intact dots [] := intact_of_head (fun he => by cases he)

theorem reads_intact {dots : Bool} : ∀ {ls : List Bytes} (m rest : List Bytes), (∀ l ∈ ls, Intact dots l) →
    reads dots (.data m) (ls ++ dot :: rest) = .message (m ++ ls) :: reads dots .command rest
  | [], m, rest, _ => by rw [List.nil_append, reads, if_pos rfl, List.append_nil]
  | l :: ls, m, rest, h => by
    obtain ⟨hne, hun⟩ := h l List.mem_cons_self
    rw [List.cons_append, reads, if_neg hne, hun,
      reads_intact (m ++ [l]) rest (fun l' hl => h l' (List.mem_cons_of_mem l hl)), List.append_assoc]
    rfl

/-- What has been read of a message stays in front. -/
theorem prefix_of_reads {dots : Bool} : ∀ {ls m k : List Bytes} {more : List Item},
    reads dots (.data m) ls = .message k :: more → m <+: k
  | [], m, k, more, h => by cases h
  | l :: ls, m, k, more, h => by
    rw [reads] at h
    split at h
    · injection h with hk
      injection hk with hk
      exact hk ▸ List.prefix_refl m
    · exact (List.prefix_append m _).trans (prefix_of_reads h)

theorem intact_of_reads {dots : Bool} : ∀ {ls m rest : List Bytes} {more : List Item},
    reads dots (.data m) (ls ++ dot :: rest) = .message (m ++ ls) :: more → ∀ l ∈ ls, Intact dots l
  | [], m, rest, more, _ => fun l hl => absurd hl List.not_mem_nil
  | l :: ls, m, rest, more, h => by
    rw [List.cons_append, reads] at h
    split at h
    · injection h with hk
      injection hk with hk
      simp at hk
    · rename_i hne
      have hpre := prefix_of_reads h
      rw [List.prefix_append_right_inj, List.cons_prefix_cons] at hpre
      have hl : m ++ l :: ls = m ++ [unstuff dots l] ++ ls := by rw [hpre.1, List.append_assoc]; rfl
      rw [hl] at h
      rintro l' hl'
      rcases List.mem_cons.1 hl' with rfl | hl'
      · exact ⟨hne, hpre.1⟩
      · exact intact_of_reads h l' hl'

/-- **A message is read as its lines exactly when all of them are intact.** -/
theorem reads_message_iff (dots : Bool) (ls rest : List Bytes) :
    reads dots (.data []) (ls ++ dot :: rest) = .message ls :: reads dots .command rest ↔ ∀ l ∈ ls, Intact dots l :=
  ⟨fun h => intact_of_reads h, fun h => reads_intact [] rest h⟩

/-! ## Bytes that stop a message -/

/-- What may not stand in a message: a line that is one dot, and for a receiver with `dots` a line that starts with one. -/
def stop (dots : Bool) : Bytes := crlf ++ (if dots then dot else dot ++ crlf)

theorem exists_append_crlf (ls : List Bytes) : ∃ x, crlf ++ unlines ls = x ++ crlf := by
  rcases List.eq_nil_or_concat ls with rfl | ⟨ls, l, rfl⟩
  · exact ⟨[], rfl⟩
  · exact ⟨crlf ++ unlines ls ++ l, by simp [unlines]⟩

/-- **All pieces of a text are intact exactly when nothing in it, taken as lines, stops a message.** -/
theorem intact_iff (dots : Bool) (t : Bytes) :
    (∀ p ∈ pieces t, Intact dots p) ↔ ¬ stop dots <:+: crlf ++ (t ++ crlf) := by
  have hpieces : pieces (crlf ++ (t ++ crlf)) = [] :: (pieces t ++ [[]]) := by
    have h : pieces (t ++ crlf) = pieces t ++ [[]] := pieces_append_crlf t []
    have h' := pieces_append_crlf [] (t ++ crlf)
    rw [h] at h'
    exact h'
  have hmem : ∀ {p : Bytes}, p ≠ [] → p ∈ pieces (crlf ++ (t ++ crlf)) → p ∈ pieces t := fun hne hp => by
    simpa [hpieces, hne] using hp
  have hsplit : ∀ p ∈ pieces t, ∃ x y, crlf ++ (t ++ crlf) = x ++ (crlf ++ (p ++ crlf)) ++ y := fun p hp => by
    obtain ⟨ls, ms, hps⟩ := List.append_of_mem hp
    obtain ⟨x, hx⟩ := exists_append_crlf ls
    refine ⟨x, unlines ms, ?_⟩
    rw [← unlines_pieces, hps, unlines_append, ← List.append_assoc, hx, unlines_cons]
    simp
  constructor
  · rintro h ⟨x, y, hxy⟩
    cases dots with
    | false =>
      have hp : dot ∈ pieces (crlf ++ (t ++ crlf)) := by
        have e : crlf ++ (t ++ crlf) = x ++ (crlf ++ (dot ++ (crlf ++ y))) := by rw [← hxy]; simp [stop]
        rw [e, pieces_append_crlf, pieces_append_crlf]
        exact List.mem_append_right _ (List.mem_append_left _ List.mem_cons_self)
      exact (h dot (hmem (List.cons_ne_nil _ _) hp)).1 rfl
    | true =>
      obtain ⟨p, ps, -, hps⟩ := pieces_cons (fun hc => absurd hc (by decide) : (46 : UInt8) = 13 → y.head? ≠ some 10)
      have hp : 46 :: p ∈ pieces (crlf ++ (t ++ crlf)) := by
        have e : crlf ++ (t ++ crlf) = x ++ (crlf ++ (46 :: y)) := by rw [← hxy]; simp [stop, dot]
        rw [e, pieces_append_crlf, hps]
        exact List.mem_append_right _ List.mem_cons_self
      exact (unstuff_eq_iff true _).1 (h _ (hmem (List.cons_ne_nil _ _) hp)).2 ⟨rfl, rfl⟩
  · intro h p hp
    obtain ⟨x, y, hxy⟩ := hsplit p hp
    have hdot : p ≠ dot := by
      rintro rfl
      refine h ⟨x, (if dots then crlf else []) ++ y, ?_⟩
      rw [hxy]
      cases dots <;> simp [stop]
    refine ⟨hdot, (unstuff_eq_iff dots p).2 ?_⟩
    rintro ⟨rfl, hhead⟩
    cases p with
    | nil => cases hhead
    | cons c p =>
      rw [List.head?_cons, Option.some.injEq] at hhead
      subst hhead
      exact h ⟨x, p ++ crlf ++ y, by rw [hxy]; simp [stop, dot]⟩

/-- Bytes around one that does not occur in the pattern. -/
theorem infix_append_cons {α : Type} {w : List α} {c : α} (hc : c ∉ w) :
    ∀ (x : List α) {y : List α}, w <:+: x ++ c :: y → w <:+: x ∨ w <:+: y
  | [], y, h => by
    rcases List.infix_cons_iff.1 h with h | h
    · cases w with
      | nil => exact Or.inl (List.infix_refl [])
      | cons d w => exact absurd ((List.cons_prefix_cons.1 h).1 ▸ List.mem_cons_self) hc
    · exact Or.inr h
  | a :: x, y, h => by
    rcases List.infix_cons_iff.1 h with h | h
    · refine Or.inl (List.IsPrefix.isInfix ?_)
      have h : w <+: (a :: x) ++ c :: y := h
      rcases List.prefix_or_prefix_of_prefix h (List.prefix_append (a :: x) (c :: y)) with hw | hw
      · exact hw
      · obtain ⟨z, rfl⟩ := hw
        rw [List.prefix_append_right_inj] at h
        cases z with
        | nil => rw [List.append_nil]
        | cons d z => exact absurd ((List.cons_prefix_cons.1 h).1 ▸ List.mem_append_right _ List.mem_cons_self) hc
    · rcases infix_append_cons hc x h with h | h
      · exact Or.inl (List.infix_cons h)
      · exact Or.inr h

end Smtp
