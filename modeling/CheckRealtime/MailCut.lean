import CheckRealtime.Mailman
/-!
# MailCut — how TCP cuts up the replies of the server

The stream of the server is a row of replies (`replies`), which `recv` gives out in chunks (`Cut`).  `sendmail` takes the
chunk of a turn for the reply to it; `sameMail_iff` says for which cuts this is right.
-/
namespace CheckRealtime

/-! ## The replies of a stream -/

/-- The pieces in order, each one that goes on put together with the next. -/
def gather (goesOn : Str → Bool) (pieces : List Str) : List Str :=
  pieces.foldr (fun piece rest => if goesOn piece then (piece ++ rest.headD []) :: rest.tail else piece :: rest) []

theorem gather_flatten (goesOn : Str → Bool) : ∀ pieces : List Str, (gather goesOn pieces).flatten = pieces.flatten
  | [] => rfl
  | piece :: pieces => by
    have ih := gather_flatten goesOn pieces
    rw [gather, List.foldr_cons, ← gather]
    split
    · rw [List.flatten_cons, List.append_assoc, List.flatten_cons, ← ih]
      cases gather goesOn pieces <;> rfl
    · rw [List.flatten_cons, List.flatten_cons, ih]

theorem gather_ne (goesOn : Str → Bool) : ∀ pieces : List Str, (∀ piece ∈ pieces, piece ≠ []) →
    ∀ whole ∈ gather goesOn pieces, whole ≠ []
  | [], _, whole, hwhole => absurd hwhole List.not_mem_nil
  | piece :: pieces, hne, whole, hwhole => by
    have ih := gather_ne goesOn pieces (fun p hp => hne p (List.mem_cons_of_mem _ hp))
    have hpiece : piece ≠ [] := hne piece List.mem_cons_self
    rw [gather, List.foldr_cons, ← gather] at hwhole
    split at hwhole
    · rcases List.mem_cons.1 hwhole with rfl | hrest
      · exact List.append_ne_nil_of_left_ne_nil hpiece _
      · exact ih whole (List.mem_of_mem_tail hrest)
    · rcases List.mem_cons.1 hwhole with rfl | hrest
      · exact hpiece
      · exact ih whole hrest

/-- The lines of a stream, each with the byte that ends it. -/
def lines (stream : Str) : List Str := gather (fun piece => piece != ascii "\n") (stream.map (fun c => [c]))

/-- A line with a hyphen after its code is not the last one of its reply. -/
def isContinued (text : Str) : Bool := text[3]? == some 45

/-- The replies of a stream, the last one perhaps broken off. -/
def replies (stream : Str) : List Str := gather isContinued (lines stream)

theorem replies_flatten (stream : Str) : (replies stream).flatten = stream := by
  rw [replies, gather_flatten, lines, gather_flatten, ← List.flatMap_def, List.flatMap_singleton']

theorem replies_ne (stream : Str) : ∀ reply ∈ replies stream, reply ≠ [] := by
  refine gather_ne _ _ (gather_ne _ _ (fun piece hpiece => ?_))
  obtain ⟨c, -, rfl⟩ := List.mem_map.1 hpiece
  exact List.cons_ne_nil c []

example : replies (ascii "220-a\r\n220 b\r\n250 ok\r\n") = [ascii "220-a\r\n220 b\r\n", ascii "250 ok\r\n"] := by
  decide +kernel

/-! ## What is matched against what -/

/-- A way `recv` may give out a stream. -/
structure Cut (stream : Str) where
  chunks  : List Str
  ne      : ∀ c ∈ chunks, c ≠ []
  le      : ∀ c ∈ chunks, c.length ≤ 1023
  flatten : chunks.flatten = stream

/-- A server that waits after every reply until it is read, none of them longer than the buffer. -/
def Cut.whole (stream : Str) (hfit : ∀ reply ∈ replies stream, reply.length ≤ 1023) : Cut stream :=
  ⟨replies stream, replies_ne stream, hfit, replies_flatten stream⟩

/-- The first three bytes. -/
def codeOf (reply : Str) : Str := reply.take 3

/-- What `recv` gives out in the place of a reply begins where that reply begins, and with its code. -/
structure Cut.Answers {stream : Str} (c : Cut stream) (k : Nat) : Prop where
  start : (c.chunks.take k).flatten = ((replies stream).take k).flatten
  code  : (c.chunks[k]?).map codeOf = ((replies stream)[k]?).map codeOf

/-- The commands of the turns up to this one have been sent, and the reply to the last of them is waited for. -/
def Mailman.Asks (m : Mailman) (now : Tm) (subject body : Str) (net : Network) (k : Nat) : Prop :=
  m.Connects net ∧ k < m.codes.length ∧ ((m.script now subject body).take (k + 1)).flatMap Dialogue.Turn.words <+:
    (m.sendmail now subject body net.link).link.commands

/-- What is asked of two cuts of a stream: the dialogues look the same, and in both of them what is matched against a
command is the reply to it. -/
structure Mailman.SameMail (m : Mailman) (now : Tm) (subject body : Str) (net : Network) {stream : Str}
    (c c' : Cut stream) : Prop where
  observed : (m.sendmail now subject body (Network.link { net with recvs := c.chunks })).observed =
    (m.sendmail now subject body (Network.link { net with recvs := c'.chunks })).observed
  matched  : ∀ k, m.Asks now subject body { net with recvs := c.chunks } k → c.Answers k
  matched' : ∀ k, m.Asks now subject body { net with recvs := c'.chunks } k → c'.Answers k

/-- The turn at which the replies of a stream are through: the first one whose reply has not the code expected there, or
the last of all. -/
def Mailman.lastTurn (m : Mailman) (stream : Str) : Nat := min (m.answered (replies stream)) (m.codes.length - 1)

/-- Up to that turn every reply comes whole and in a chunk of its own, and there a chunk begins with the code of the
reply. -/
def Mailman.InStep (m : Mailman) {stream : Str} (c : Cut stream) : Prop :=
  c.chunks.take (m.lastTurn stream) = (replies stream).take (m.lastTurn stream) ∧
    (c.chunks[m.lastTurn stream]?).map codeOf = ((replies stream)[m.lastTurn stream]?).map codeOf

theorem whole_inStep (m : Mailman) (stream : Str) (hfit : ∀ reply ∈ replies stream, reply.length ≤ 1023) :
    m.InStep (Cut.whole stream hfit) := ⟨rfl, rfl⟩

/-! ## The turns a dialogue comes to -/

theorem codes_isCode (m : Mailman) : ∀ token ∈ m.codes, IsCode token := by
  intro token h
  simp only [Mailman.codes, List.mem_append, List.mem_cons, List.mem_map, List.not_mem_nil, or_false] at h
  rcases h with (rfl | rfl | rfl | rfl | rfl | rfl) | ⟨it, -, rfl⟩ | rfl | rfl <;> exact ⟨rfl, by decide⟩

theorem script_length (m : Mailman) (now : Tm) (subject body : Str) :
    (m.script now subject body).length = m.codes.length := by
  rw [← script_codes m now subject body, List.length_map]

/-- **A dialogue comes to a turn exactly when the chunks before it begin with the codes expected in their place.** -/
theorem asks_iff {m : Mailman} {net : Network} (h : m.Connects net) (now : Tm) (subject body : Str) (k : Nat) :
    m.Asks now subject body net k ↔ k < m.codes.length ∧ k ≤ m.answered net.recvs := by
  have hcommands : (m.sendmail now subject body net.link).link.commands = m.said now subject body net.recvs :=
    congrArg Prod.fst (observed_of_connects h now subject body)
  have hwords := Dialogue.run_words fits (m.script now subject body) net.recvs
  rw [script_codes] at hwords
  rw [Mailman.Asks, hcommands, and_iff_right h, Mailman.said, hwords]
  refine and_congr_right (fun hk => ?_)
  have hk : k < (m.script now subject body).length := by rwa [script_length]
  have hcame := Dialogue.prefix_words_iff (m.script now subject body) k (m.answered net.recvs)
    (script_words m now subject body) hk
  cases hends : m.ends now subject body net.recvs with
  | false =>
    rw [if_neg Bool.false_ne_true, List.append_nil]
    exact hcame
  | true =>
    have hall := (Dialogue.passed_eq_length_iff fits (m.script now subject body) net.recvs).2 hends
    rw [script_codes] at hall
    have hle : k ≤ m.answered net.recvs := by
      show k ≤ Dialogue.passed fits m.codes net.recvs
      omega
    rw [if_pos rfl]
    exact iff_of_true ((hcame.2 hle).trans (List.prefix_append _ _)) hle

/-- Only the codes of the chunks count, as far as the dialogue gets. -/
theorem answered_congr (m : Mailman) (chunks chunks' : List Str)
    (h : ∀ k, k < m.codes.length → k ≤ m.answered chunks → (chunks[k]?).map codeOf = (chunks'[k]?).map codeOf) :
    m.answered chunks' = m.answered chunks := by
  refine Dialogue.passed_congr fits codeOf m.codes chunks chunks' (fun token htoken r r' hr => ?_) h
  have hcode := codes_isCode m token htoken
  rw [← fits_take hcode r (Nat.le_refl 3), ← fits_take hcode r' (Nat.le_refl 3)]
  exact congrArg (fits token) hr

/-! ## Chunks in step with replies -/

theorem take_eq_of_starts (xs ys : List Str) (f : Str → Str) : ∀ n : Nat,
    (∀ k ≤ n, (xs.take k).flatten = (ys.take k).flatten) → (∀ k < n, (xs[k]?).map f = (ys[k]?).map f) →
      xs.take n = ys.take n
  | 0, _, _ => rfl
  | n + 1, hstart, hcode => by
    have ih := take_eq_of_starts xs ys f n (fun k hk => hstart k (Nat.le_succ_of_le hk))
      (fun k hk => hcode k (Nat.lt_succ_of_lt hk))
    have hnext := hstart (n + 1) (Nat.le_refl _)
    have hboth := hcode n (Nat.lt_succ_self n)
    rw [List.take_add_one, List.take_add_one, ih] at hnext ⊢
    cases hx : xs[n]? with
    | none =>
      rw [hx] at hboth
      have hy : ys[n]? = none := Option.map_eq_none_iff.1 hboth.symm
      rw [hy]
    | some x =>
      rw [hx] at hboth
      obtain ⟨y, hy, -⟩ := Option.map_eq_some_iff.1 hboth.symm
      rw [hx, hy, List.flatten_append, List.flatten_append, List.append_cancel_left_eq] at hnext
      have hxy : x = y := by simpa using hnext
      rw [hy, hxy]

theorem codes_pos (m : Mailman) : 0 < m.codes.length := by
  rw [Mailman.codes, List.length_append, List.length_cons]
  omega

/-- In step is to answer at every turn up to the last one. -/
theorem inStep_iff (m : Mailman) {stream : Str} (c : Cut stream) :
    m.InStep c ↔ ∀ k, k < m.codes.length → k ≤ m.answered (replies stream) → c.Answers k := by
  have hpos := codes_pos m
  have hturn : ∀ k, (k < m.codes.length ∧ k ≤ m.answered (replies stream)) ↔ k ≤ m.lastTurn stream := fun k => by
    rw [Mailman.lastTurn]
    omega
  constructor
  · rintro ⟨htake, hcode⟩ k hk hle
    have hk : k ≤ m.lastTurn stream := (hturn k).1 ⟨hk, hle⟩
    refine ⟨?_, ?_⟩
    · have hshort := congrArg (List.take k) htake
      rw [List.take_take, List.take_take, Nat.min_eq_left hk] at hshort
      rw [hshort]
    · rcases Nat.lt_or_eq_of_le hk with hlt | rfl
      · have hget : c.chunks[k]? = (replies stream)[k]? := by
          rw [← List.getElem?_take_of_lt hlt, htake, List.getElem?_take_of_lt hlt]
        rw [hget]
      · exact hcode
  · intro h
    have h : ∀ k, k ≤ m.lastTurn stream → c.Answers k := fun k hk => h k ((hturn k).2 hk).1 ((hturn k).2 hk).2
    exact ⟨take_eq_of_starts _ _ codeOf _ (fun k hk => (h k hk).start) (fun k hk => (h k (Nat.le_of_lt hk)).code),
      (h _ (Nat.le_refl _)).code⟩

theorem answered_of_inStep {m : Mailman} {stream : Str} {c : Cut stream} (h : m.InStep c) :
    m.answered c.chunks = m.answered (replies stream) :=
  answered_congr m (replies stream) c.chunks (fun k hk hle => ((inStep_iff m c).1 h k hk hle).code.symm)

/-- **Every reply is matched against the command it answers exactly when the cut is in step with the replies.** -/
theorem matched_iff {m : Mailman} {net : Network} (h : m.Connects net) (now : Tm) (subject body : Str) {stream : Str}
    (c : Cut stream) :
    (∀ k, m.Asks now subject body { net with recvs := c.chunks } k → c.Answers k) ↔ m.InStep c := by
  have h : m.Connects { net with recvs := c.chunks } := h
  simp only [asks_iff h]
  constructor
  · intro hall
    have heq : m.answered (replies stream) = m.answered c.chunks :=
      answered_congr m c.chunks (replies stream) (fun k hk hle => (hall k ⟨hk, hle⟩).code)
    exact (inStep_iff m c).2 (fun k hk hle => hall k ⟨hk, heq ▸ hle⟩)
  · rintro hstep k ⟨hk, hle⟩
    exact (inStep_iff m c).1 hstep k hk (answered_of_inStep hstep ▸ hle)

/-- **Two cuts of a stream make the same dialogue, with every reply matched against the command it answers, exactly when
both are in step with the replies of the stream**, or there is no dialogue. -/
theorem sameMail_iff (m : Mailman) (now : Tm) (subject body : Str) (net : Network) (stream : Str) (c c' : Cut stream) :
    m.SameMail now subject body net c c' ↔ ¬ m.Connects net ∨ (m.InStep c ∧ m.InStep c') := by
  by_cases h : m.Connects net
  · rw [or_iff_right (not_not.2 h)]
    constructor
    · intro hsame
      exact ⟨(matched_iff h now subject body c).1 hsame.matched, (matched_iff h now subject body c').1 hsame.matched'⟩
    · rintro ⟨hstep, hstep'⟩
      have hanswered : m.answered c.chunks = m.answered c'.chunks := by
        rw [answered_of_inStep hstep, answered_of_inStep hstep']
      exact ⟨(observed_eq_iff h now subject body _ _).2 hanswered, (matched_iff h now subject body c).2 hstep,
        (matched_iff h now subject body c').2 hstep'⟩
  · have h1 : ¬ m.Connects { net with recvs := c.chunks } := h
    have h2 : ¬ m.Connects { net with recvs := c'.chunks } := h
    refine iff_of_true ⟨?_, fun k hk => absurd hk.1 h1, fun k hk => absurd hk.1 h2⟩ (Or.inl h)
    rw [observed_of_fails h1, observed_of_fails h2]

/-- A banner of two lines: in one chunk it is answered, in two its second line is taken for the reply to `Helo`. -/
theorem sameMail_fails : ¬ ∀ (m : Mailman) (now : Tm) (subject body : Str) (net : Network) (stream : Str)
    (c c' : Cut stream), m.SameMail now subject body net c c' := fun h => by
  have hsame := h ⟨[ascii "a@b"], ascii "c@d", ascii "127.0.0.1", ascii "u", ascii "p"⟩ ⟨0, 0, 0, 1, 0, 70, 4⟩
    (ascii "s") (ascii "b") ⟨3, 0, [], []⟩ (ascii "220-mail\r\n220 ready\r\n250 ok\r\n")
    ⟨[ascii "220-mail\r\n220 ready\r\n", ascii "250 ok\r\n"], by decide +kernel, by decide +kernel, by decide +kernel⟩
    ⟨[ascii "220-mail\r\n", ascii "220 ready\r\n", ascii "250 ok\r\n"], by decide +kernel, by decide +kernel,
      by decide +kernel⟩
  exact absurd (congrArg Prod.fst hsame.observed) (by decide +kernel)

end CheckRealtime
