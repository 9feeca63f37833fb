import Mathlib.Data.List.Infix
/-!
# SqlText — the lexical grammar of SQLite's SQL

`lex` reads a text one byte at a time: words, natural numbers, the two quoted forms, single-byte punctuation, blanks
and both kinds of comment.  A quoted form runs to the first quote that is not doubled.  The lemmas are about texts that
paste a string between quotes: what the string must be for the form to denote it.
-/
namespace SqlText

abbrev Bytes := List UInt8

inductive Tok where
  | word (w : Bytes)
  | num (n : Nat)
  | quoted (q : UInt8) (v : Bytes)
  | punct (c : UInt8)
deriving DecidableEq

/-- Where the reader stands: between tokens, in one, just after a quote that may end a quoted form or be the first of a
doubled one, or at or in a comment. -/
inductive LexSt where
  | gap
  | word (w : Bytes)
  | num (n : Nat)
  | lit (q : UInt8) (v : Bytes)
  | litQuote (q : UInt8) (v : Bytes)
  | dash
  | line
  | slash
  | block
  | blockStar
  | bad
deriving DecidableEq

def isBlank (c : UInt8) : Bool := c == 32 || c == 9 || c == 10 || c == 12 || c == 13
def isDigit (c : UInt8) : Bool := 48 ≤ c && c ≤ 57
def isIdent (c : UInt8) : Bool :=
  isDigit c || (65 ≤ c && c ≤ 90) || (97 ≤ c && c ≤ 122) || c == 95 || c == 36 || 128 ≤ c

/-- The state after a byte that goes on with what is being read; nothing when the byte starts something new. -/
def continues : LexSt → UInt8 → Option LexSt
  | .gap, _          => none
  | .word w, c       => if isIdent c then some (.word (w ++ [c])) else none
  | .num n, c        =>
    if isDigit c then some (.num (10 * n + (c.toNat - 48)))
    else if isIdent c || c == 46 then some .bad else none
  | .lit q v, c      => if c = q then some (.litQuote q v) else some (.lit q (v ++ [c]))
  | .litQuote q v, c => if c = q then some (.lit q (v ++ [q])) else none
  | .dash, c         => if c = 45 then some .line else none
  | .line, c         => if c = 10 then some .gap else some .line
  | .slash, c        => if c = 42 then some .block else none
  | .block, c        => if c = 42 then some .blockStar else some .block
  | .blockStar, c    => if c = 47 then some .gap else if c = 42 then some .blockStar else some .block
  | .bad, _          => some .bad

def flush : LexSt → List Tok
  | .word w       => [.word w]
  | .num n        => [.num n]
  | .litQuote q v => [.quoted q v]
  | .dash         => [.punct 45]
  | .slash        => [.punct 47]
  | _             => []

def start (c : UInt8) : List Tok × LexSt :=
  if isBlank c then ([], .gap)
  else if isDigit c then ([], .num (c.toNat - 48))
  else if isIdent c then ([], .word [c])
  else if c = 39 ∨ c = 34 then ([], .lit c [])
  else if c = 45 then ([], .dash)
  else if c = 47 then ([], .slash)
  else ([.punct c], .gap)

def feed (x : List Tok × LexSt) (c : UInt8) : List Tok × LexSt :=
  match continues x.2 c with
  | some st => (x.1, st)
  | none    => (x.1 ++ flush x.2 ++ (start c).1, (start c).2)

/-- The tokens of a text that may end here: not inside a quoted form. -/
def finish (x : List Tok × LexSt) : Option (List Tok) :=
  match x.2 with
  | .lit _ _ => none
  | .bad     => none
  | st       => some (x.1 ++ flush st)

def read (x : List Tok × LexSt) (text : Bytes) : List Tok × LexSt := text.foldl feed x

def lex (text : Bytes) : Option (List Tok) := finish (read ([], .gap) text)

theorem read_append (x : List Tok × LexSt) (a b : Bytes) : read x (a ++ b) = read (read x a) b :=
  List.foldl_append ..

theorem read_cons (x : List Tok × LexSt) (c : UInt8) (t : Bytes) : read x (c :: t) = read (feed x c) t := rfl

/-! ## The tokens read so far do not matter -/

theorem feed_toks (ts ts' : List Tok) (st : LexSt) (c : UInt8) :
    feed (ts ++ ts', st) c = (ts ++ (feed (ts', st) c).1, (feed (ts', st) c).2) := by
  unfold feed
  cases continues st c with
  | some st' => rfl
  | none => simp only [List.append_assoc]

theorem read_toks (ts : List Tok) : ∀ (t : Bytes) (ts' : List Tok) (st : LexSt),
    read (ts ++ ts', st) t = (ts ++ (read (ts', st) t).1, (read (ts', st) t).2)
  | [], _, _ => rfl
  | c :: t, ts', st => by
    rw [read_cons, read_cons, feed_toks, read_toks ts t]

theorem read_from (ts toks : List Tok) (st st' : LexSt) (t : Bytes) (h : read ([], st) t = (toks, st')) :
    read (ts, st) t = (ts ++ toks, st') := by
  have hts := read_toks ts t [] st
  rwa [List.append_nil, h] at hts

theorem finish_toks (ts ts' : List Tok) (st : LexSt) : finish (ts ++ ts', st) = (finish (ts', st)).map (ts ++ ·) := by
  cases st <;> simp [finish]

theorem finish_read (ts : List Tok) (st : LexSt) (t : Bytes) :
    finish (read (ts, st) t) = (finish (read ([], st) t)).map (ts ++ ·) := by
  have h := read_toks ts t [] st
  rw [List.append_nil] at h
  rw [h, finish_toks]

theorem finish_read_append (ts more : List Tok) (st : LexSt) (t : Bytes)
    (h : finish (read (ts, st) t) = some (ts ++ more)) : finish (read ([], st) t) = some more := by
  rw [finish_read, Option.map_eq_some_iff] at h
  obtain ⟨ts', h, e⟩ := h
  rw [h, List.append_cancel_left e]

/-! ## Punctuation comes from the text -/

theorem punct_feed (p : UInt8) (hd : p ≠ 45) (hs : p ≠ 47) (ts : List Tok) (st : LexSt) (c : UInt8)
    (h : Tok.punct p ∈ (feed (ts, st) c).1) : Tok.punct p ∈ ts ∨ p = c := by
  have hflush : Tok.punct p ∉ flush st := by cases st <;> simp [flush, hd, hs]
  have hstart : Tok.punct p ∈ (start c).1 → p = c := by
    unfold start
    repeat' split
    all_goals simp
  unfold feed at h
  cases hc : continues st c with
  | some st' => rw [hc] at h; exact Or.inl h
  | none =>
    rw [hc] at h
    simp only [List.mem_append] at h
    rcases h with (h | h) | h
    · exact Or.inl h
    · exact absurd h hflush
    · exact Or.inr (hstart h)

theorem punct_read (p : UInt8) (hd : p ≠ 45) (hs : p ≠ 47) : ∀ (t : Bytes) (ts : List Tok) (st : LexSt),
    Tok.punct p ∈ (read (ts, st) t).1 → Tok.punct p ∈ ts ∨ p ∈ t
  | [], _, _, h => Or.inl h
  | c :: t, ts, st, h => by
    rw [read_cons] at h
    rcases punct_read p hd hs t _ _ h with h | h
    · rcases punct_feed p hd hs ts st c h with h | rfl
      · exact Or.inl h
      · exact Or.inr (by simp)
    · exact Or.inr (by simp [h])

/-- **A punctuation token stands in the text as its byte.** -/
theorem mem_of_punct (p : UInt8) (hd : p ≠ 45) (hs : p ≠ 47) (t : Bytes) (st : LexSt) (more : List Tok)
    (h : finish (read ([], st) t) = some more) (hp : Tok.punct p ∈ more) : p ∈ t := by
  have hmore : more = (read ([], st) t).1 ++ flush (read ([], st) t).2 := by
    unfold finish at h
    split at h
    · cases h
    · cases h
    · exact (Option.some.inj h).symm
  rw [hmore, List.mem_append] at hp
  rcases hp with hp | hp
  · exact (punct_read p hd hs t [] st hp).resolve_left (by simp)
  · cases hst : (read ([], st) t).2 <;> rw [hst] at hp <;> simp [flush, hd, hs] at hp

/-! ## Quoted forms -/

/-- A string as it has to stand between quotes `q` to be denoted. -/
def double (q : UInt8) : Bytes → Bytes
  | []     => []
  | c :: v => if c = q then q :: q :: double q v else c :: double q v

theorem double_of_not_mem (q : UInt8) : ∀ (v : Bytes), q ∉ v → double q v = v
  | [], _ => rfl
  | c :: v, h => by
    rw [List.mem_cons, not_or] at h
    rw [double, if_neg (Ne.symm h.1), double_of_not_mem q v h.2]

theorem read_lit_clean (q : UInt8) (ts : List Tok) : ∀ (n v : Bytes), q ∉ n →
    read (ts, .lit q v) n = (ts, .lit q (v ++ n))
  | [], v, _ => by rw [List.append_nil]; rfl
  | c :: n, v, h => by
    rw [List.mem_cons, not_or] at h
    have hf : feed (ts, .lit q v) c = (ts, .lit q (v ++ [c])) := by
      simp only [feed, continues, if_neg (Ne.symm h.1)]
    rw [read_cons, hf, read_lit_clean q ts n (v ++ [c]) h.2, List.append_assoc, List.singleton_append]

theorem feed_lit_quote (q : UInt8) (ts : List Tok) (v : Bytes) : feed (ts, .lit q v) q = (ts, .litQuote q v) := by
  simp only [feed, continues, if_true]

theorem finish_litQuote (q : UInt8) (v t : Bytes) (more : List Tok) (tok : Tok)
    (h : finish (read ([], .litQuote q v) t) = some (tok :: more)) :
    tok = .quoted q v ∨ ∃ t', t = q :: t' ∧ finish (read ([], .lit q (v ++ [q])) t') = some (tok :: more) := by
  cases t with
  | nil =>
    refine Or.inl ?_
    simp only [read, List.foldl_nil, finish, flush, List.nil_append, Option.some.injEq, List.cons.injEq] at h
    exact h.1.symm
  | cons c t =>
    by_cases hc : c = q
    · subst hc
      refine Or.inr ⟨t, rfl, ?_⟩
      rw [read_cons] at h
      simpa only [feed, continues, if_true] using h
    · refine Or.inl ?_
      rw [read_cons] at h
      have hf : feed ([], .litQuote q v) c = ([.quoted q v] ++ (start c).1, (start c).2) := by
        simp only [feed, continues, if_neg hc, flush, List.nil_append]
      rw [hf, read_toks, finish_toks, Option.map_eq_some_iff] at h
      obtain ⟨ts, -, h⟩ := h
      exact (List.cons.inj h).1.symm

/-- **What a quoted form denotes**: up to its closing quote the text is the denoted string with its quotes doubled. -/
theorem exists_of_read_lit (q : UInt8) : ∀ (k : Nat) (t v : Bytes) (tok : Tok) (more : List Tok), t.length ≤ k →
    finish (read ([], .lit q v) t) = some (tok :: more) →
      ∃ n rest, tok = .quoted q (v ++ n) ∧ t = double q n ++ q :: rest := by
  intro k
  induction k with
  | zero =>
    intro t v tok more hk h
    cases List.length_eq_zero_iff.1 (Nat.le_zero.1 hk)
    cases h
  | succ k ih =>
    intro t v tok more hk h
    cases t with
    | nil => cases h
    | cons c t =>
      have hk : t.length ≤ k := Nat.le_of_succ_le_succ hk
      rw [read_cons] at h
      by_cases hc : c = q
      · subst hc
        rw [feed_lit_quote] at h
        rcases finish_litQuote c v t more tok h with rfl | ⟨t', rfl, hread⟩
        · exact ⟨[], t, by rw [List.append_nil], rfl⟩
        · obtain ⟨n, rest, rfl, rfl⟩ := ih t' (v ++ [c]) tok more
            (Nat.le_trans (Nat.le_succ _) hk) hread
          exact ⟨c :: n, rest, by simp, by simp [double]⟩
      · have hf : feed ([], .lit q v) c = ([], .lit q (v ++ [c])) := by
          simp only [feed, continues, if_neg hc]
        rw [hf] at h
        obtain ⟨n, rest, rfl, rfl⟩ := ih t (v ++ [c]) tok more hk h
        exact ⟨c :: n, rest, by simp, by simp [double, hc]⟩

theorem not_prefix_of_quotes (q : UInt8) (suf : Bytes) (hs : suf.head? ≠ some q) : ∀ (n : Bytes) (k : Nat),
    ¬ List.replicate (k + 1) q ++ (double q n ++ [q]) <+: n ++ q :: suf
  | [], k, h => by
    rw [List.replicate_succ, List.cons_append, List.nil_append, List.cons_prefix_cons] at h
    obtain ⟨-, t, ht⟩ := h
    cases k with
    | zero => exact hs (by rw [← ht]; rfl)
    | succ k => exact hs (by rw [← ht]; rfl)
  | c :: n, k, h => by
    rw [List.replicate_succ, List.cons_append, List.cons_append, List.cons_prefix_cons] at h
    obtain ⟨rfl, h⟩ := h
    refine not_prefix_of_quotes q suf hs n (k + 1) ?_
    rw [double, if_pos rfl] at h
    have e : List.replicate k q ++ (q :: q :: double q n ++ [q]) = List.replicate (k + 2) q ++ (double q n ++ [q]) := by
      rw [List.replicate_add, List.append_assoc]; rfl
    rwa [e] at h

/-- **A string pasted between quotes is denoted only when it holds no quote.** -/
theorem not_mem_of_prefix (q : UInt8) (suf : Bytes) (hs : suf.head? ≠ some q) : ∀ (n : Bytes),
    double q n ++ [q] <+: n ++ q :: suf → q ∉ n
  | [], _ => by simp
  | c :: n, h => by
    by_cases hc : c = q
    · subst hc
      rw [double, if_pos rfl, List.cons_append, List.cons_append, List.cons_append, List.cons_prefix_cons] at h
      exact absurd h.2 (not_prefix_of_quotes c suf hs n 0)
    · rw [double, if_neg hc, List.cons_append, List.cons_append, List.cons_prefix_cons] at h
      have := not_mem_of_prefix q suf hs n h.2
      simp [Ne.symm hc, this]

/-! ## A string pasted between quotes

The text is `front ++ (n ++ q :: suf)`, where `front` ends with the opening quote; a text may be cut off at `k` bytes. -/

section Pasted

variable (front suf : Bytes) (q : UInt8) (toks : List Tok) (hfront : read ([], .gap) front = (toks, .lit q []))

include hfront in
/-- **A string without quotes is denoted.** -/
theorem lex_pasted (n : Bytes) (hn : q ∉ n) :
    lex (front ++ (n ++ q :: suf)) = (finish (read ([], .litQuote q n) suf)).map (toks ++ ·) := by
  rw [lex, read_append, hfront, read_append, read_lit_clean q toks n [] hn, List.nil_append, read_cons, feed_lit_quote,
    finish_read]

include hfront in
/-- **Only a string without quotes is denoted**, and what is left after it is read from its closing quote on. -/
theorem pasted_of_lex (hs : suf.head? ≠ some q) (n : Bytes) (k : Nat) (hk : front.length ≤ k) (more : List Tok)
    (h : lex ((front ++ (n ++ q :: suf)).take k) = some (toks ++ .quoted q n :: more)) :
    q ∉ n ∧ ∃ rest, rest <+: suf ∧ (front ++ (n ++ q :: suf)).take k = front ++ (n ++ q :: rest) ∧
      finish (read ([], .litQuote q n) rest) = some (.quoted q n :: more) := by
  rw [List.take_append, List.take_of_length_le hk] at h ⊢
  rw [lex, read_append, hfront] at h
  have hlit := finish_read_append toks _ _ _ h
  obtain ⟨n', rest, htok, hcut⟩ := exists_of_read_lit q _ _ [] _ _ (Nat.le_refl _) hlit
  cases htok
  rw [List.nil_append] at hlit hcut h ⊢
  have hpre : double q n' ++ q :: rest <+: n' ++ q :: suf := hcut ▸ List.take_prefix _ _
  have hq : q ∉ n' := not_mem_of_prefix q suf hs n' (List.IsPrefix.trans ⟨rest, by simp⟩ hpre)
  rw [double_of_not_mem q n' hq] at hcut hpre
  refine ⟨hq, rest, ?_, by rw [hcut], ?_⟩
  · rw [List.prefix_append_right_inj, List.cons_prefix_cons] at hpre
    exact hpre.2
  · rw [hcut, read_append, read_lit_clean q [] n' [] hq, List.nil_append, read_cons, feed_lit_quote] at hlit
    exact hlit

end Pasted

end SqlText
