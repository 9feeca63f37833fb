import CheckRealtime.FileAnalysis
import CheckRealtime.SqlText
/-!
# FileDb — `file_db.cpp`

`fileDb` is `FileDB` as SQL text: each call formats its statement into a fixed buffer and hands what fits to SQLite.
SQLite is a parameter (`Sqlite`); what is assumed of it (`Sqlite.Works`) concerns only texts that read as one of the
four statements, by the rules of `SqlText`.  `refinesMap_iff` says which sequences of calls refine a map.
-/
namespace CheckRealtime

open SqlText

/-! ## What the calls take -/

/-- A path as Linux lets it be. -/
structure Name where
  str   : Str
  ne    : str ≠ []
  noNul : 0 ∉ str
  le    : str.length ≤ 4095

/-- A checksum as `get_checksum` leaves it. -/
structure Checksum where
  str   : Str
  built : ∃ ob, str = (getChecksum ob []).2

/-- A clock reading, as `%ld` prints it. -/
abbrev Time := Fin (2 ^ 63)

/-! ## The statements -/

/-- A statement on `files (name TEXT, md5sum TEXT, timestamp INTEGER)`. -/
inductive Stmt where
  | select (name : Str)
  | insert (name md5sum : Str) (timestamp : Nat)
  | update (name md5sum : Str) (timestamp : Nat)
  | delete (name : Str)
deriving DecidableEq

def kw (s : String) : Tok := .word (ascii s)

def Stmt.toks : Stmt → List Tok
  | .select name => [kw "select", kw "md5sum", .punct 44, kw "timestamp", kw "from", kw "files", kw "where", kw "name",
      .punct 61, .quoted 34 name]
  | .insert name md5sum timestamp => [kw "insert", kw "into", kw "files", .punct 40, kw "name", .punct 44, kw "md5sum",
      .punct 44, kw "timestamp", .punct 41, kw "values", .punct 40, .quoted 39 name, .punct 44, .quoted 39 md5sum,
      .punct 44, .num timestamp, .punct 41]
  | .update name md5sum timestamp => [kw "update", kw "files", kw "set", kw "md5sum", .punct 61, .quoted 39 md5sum,
      .punct 44, kw "timestamp", .punct 61, .num timestamp, kw "where", kw "name", .punct 61, .quoted 39 name]
  | .delete name => [kw "delete", kw "from", kw "files", kw "where", kw "name", .punct 61, .quoted 39 name]

def lower (c : UInt8) : UInt8 := if 65 ≤ c && c ≤ 90 then c + 32 else c

/-- A double-quoted name of a column of `files` is the column and not a string. -/
def isColumn (name : Str) : Bool :=
  (["name", "md5sum", "timestamp", "rowid", "oid", "_rowid_"].map ascii).contains (name.map lower)

/-- The text is one statement, this one: its tokens are the statement's, and a double-quoted name is a string. -/
def ReadsAs (text : Str) : Stmt → Prop
  | .select name => lex text = some (Stmt.select name).toks ∧ isColumn name = false
  | stmt         => lex text = some stmt.toks

abbrev TableRow := Str × Row

def Stmt.onRows : Stmt → List TableRow → List TableRow
  | .select _, rows                     => rows
  | .insert name md5sum timestamp, rows => (name, md5sum, (timestamp : Int)) :: rows
  | .update name md5sum timestamp, rows => rows.map (fun r => if r.1 = name then (name, md5sum, (timestamp : Int)) else r)
  | .delete name, rows                  => rows.filter (fun r => r.1 ≠ name)

/-! ## SQLite -/

/-- A database of SQLite that holds the table: `query` is `sqlite3_prepare_v2` and the first `sqlite3_step` of a select
(nothing for no row and for an error), `exec` is `sqlite3_exec`. -/
structure Sqlite (σ : Type) where
  rows  : σ → List TableRow
  query : σ → Str → Option Row
  exec  : σ → Str → σ

/-- SQLite does what the statement says, with the rows in any order. -/
structure Sqlite.Works {σ : Type} (S : Sqlite σ) : Prop where
  query_some : ∀ s text name r, ReadsAs text (.select name) → S.query s text = some r → (name, r) ∈ S.rows s
  query_none : ∀ s text name r, ReadsAs text (.select name) → S.query s text = none → (name, r) ∉ S.rows s
  exec       : ∀ s text stmt, ReadsAs text stmt → (S.rows (S.exec s text)).Perm (stmt.onRows (S.rows s))

/-! ## `FileDB` -/

def sprintf (size : Nat) (text : Str) : Option Str := if text.length < size then some text else none

def selectFormat (name : Str) : Str :=
  ascii "select md5sum, timestamp from files where name = \"" ++ (name ++ ascii "\"")

def insertFormat (name md5sum : Str) (now : Int) : Str :=
  ascii "insert into files (name, md5sum, timestamp) values ('" ++
    (name ++ (ascii "', '" ++ (md5sum ++ (ascii "', " ++ (dec now ++ ascii ")")))))

def updateFormat (name md5sum : Str) (now : Int) : Str :=
  ascii "update files set md5sum = '" ++
    (md5sum ++ (ascii "', timestamp = " ++ (dec now ++ (ascii " where name ='" ++ (name ++ ascii "'")))))

def deleteFormat (name : Str) : Str := ascii "delete from files where name ='" ++ (name ++ ascii "'")

variable {σ : Type}

/-- `FileDB`, until a call is undefined. -/
def fileDb (S : Sqlite σ) : DbOps (Option σ) where
  find db name :=
    match db, sprintf 512 (selectFormat name) with
    | some s, some stmt => (some s, S.query s stmt)
    | _, _              => (none, none)
  insert db name md5sum now := db.map (fun s => S.exec s (snprintf 1024 (insertFormat name md5sum now)))
  update db name md5sum now := db.map (fun s => S.exec s (snprintf 1024 (updateFormat name md5sum now)))
  del db name := db.map (fun s => S.exec s (snprintf 1024 (deleteFormat name)))

/-! ## Calls -/

inductive Call where
  | find (name : Name)
  | insert (name : Name) (md5sum : Checksum) (now : Time)
  | update (name : Name) (md5sum : Checksum) (now : Time)
  | del (name : Name)

namespace Call

def name : Call → Str
  | .find n       => n.str
  | .insert n _ _ => n.str
  | .update n _ _ => n.str
  | .del n        => n.str

def stmt : Call → Stmt
  | .find n       => .select n.str
  | .insert n m t => .insert n.str m.str t
  | .update n m t => .update n.str m.str t
  | .del n        => .delete n.str

/-- The text SQLite gets, when the call is defined. -/
def text : Call → Option Str
  | .find n       => sprintf 512 (selectFormat n.str)
  | .insert n m t => some (snprintf 1024 (insertFormat n.str m.str (t : Nat)))
  | .update n m t => some (snprintf 1024 (updateFormat n.str m.str (t : Nat)))
  | .del n        => some (snprintf 1024 (deleteFormat n.str))

/-- The database after the call, and what it answers. -/
def apply {τ : Type} (D : DbOps τ) (db : τ) : Call → τ × List (Option Row)
  | .find n       => ((D.find db n.str).1, [(D.find db n.str).2])
  | .insert n m t => (D.insert db n.str m.str (t : Nat), [])
  | .update n m t => (D.update db n.str m.str (t : Nat), [])
  | .del n        => (D.del db n.str, [])

/-- The name holds no quote of the kind it is pasted between, the statement fits its buffer, and a name pasted between
double quotes is no column's. -/
def Fits : Call → Prop
  | .find n       => 34 ∉ n.str ∧ isColumn n.str = false ∧ (selectFormat n.str).length < 512
  | .insert n m t => 39 ∉ n.str ∧ (insertFormat n.str m.str (t : Nat)).length < 1024
  | .update n m t => 39 ∉ n.str ∧ (updateFormat n.str m.str (t : Nat)).length < 1024
  | .del n        => 39 ∉ n.str ∧ (deleteFormat n.str).length < 1024

end Call

/-- The database after some calls, and the answers of its finds. -/
def runCalls {τ : Type} (D : DbOps τ) (db : τ) (calls : List Call) : τ × List (Option Row) :=
  calls.foldl (fun x c => ((c.apply D x.1).1, x.2 ++ (c.apply D x.1).2)) (db, [])

theorem runCalls_snoc {τ : Type} (D : DbOps τ) (db : τ) (calls : List Call) (c : Call) :
    runCalls D db (calls ++ [c]) =
      ((c.apply D (runCalls D db calls).1).1, (runCalls D db calls).2 ++ (c.apply D (runCalls D db calls).1).2) :=
  List.foldl_concat ..

/-! ## Which texts read as their statement -/

theorem read_decNat (ts : List Tok) (n : Nat) : read (ts, .gap) (decNat n) = (ts, .num n) := by
  induction n using Nat.strongRecOn with
  | ind n ih =>
    rcases Nat.lt_or_ge n 10 with hn | hn
    · rw [decNat_of_lt n hn]
      interval_cases n <;> simp [SqlText.read, feed, continues, flush, start, isBlank, isDigit]
    · have hd : ∀ m d, d < 10 → feed (ts, .num m) (UInt8.ofNat (48 + d)) = (ts, .num (10 * m + d)) := fun m d hd => by
        interval_cases d <;> simp [feed, continues, isDigit]
      have hr : n % 10 < 10 := Nat.mod_lt _ (by decide)
      rw [decNat_of_le n hn, read_append, ih (n / 10) (by omega)]
      refine (hd (n / 10) (n % 10) hr).trans ?_
      rw [Nat.div_add_mod]

theorem dec_natCast (t : Nat) : dec (t : Int) = decNat t := if_neg (by omega)

theorem Checksum.not_mem (m : Checksum) (c : UInt8) (hc : isSumByte c = false) : c ∉ m.str := by
  obtain ⟨ob, h⟩ := m.built
  rw [h]
  intro hmem
  rw [mem_getChecksum ob c hmem] at hc
  cases hc

theorem Checksum.length_le (m : Checksum) : m.str.length ≤ 80 := by
  obtain ⟨ob, h⟩ := m.built
  rw [h]
  exact getChecksum_length_le ob

theorem Time.length_le (t : Time) : (dec ((t : Nat) : Int)).length ≤ 19 := by
  rw [dec_natCast]
  refine decNat_length_le t 19 (by decide) (Nat.lt_of_lt_of_le t.isLt (by decide))

theorem read_select : read ([], .gap) (ascii "select md5sum, timestamp from files where name = \"") =
    ((Stmt.select []).toks.dropLast, .lit 34 []) := by decide +kernel

theorem read_insert : read ([], .gap) (ascii "insert into files (name, md5sum, timestamp) values ('") =
    ((Stmt.insert [] [] 0).toks.take 12, .lit 39 []) := by decide +kernel

theorem read_update : read ([], .gap) (ascii "update files set md5sum = '") =
    ((Stmt.update [] [] 0).toks.take 5, .lit 39 []) := by decide +kernel

theorem read_delete : read ([], .gap) (ascii "delete from files where name ='") =
    ((Stmt.delete []).toks.dropLast, .lit 39 []) := by decide +kernel

theorem find_readsAs_iff (n : Name) :
    (∃ text, (Call.find n).text = some text ∧ ReadsAs text (.select n.str)) ↔ (Call.find n).Fits := by
  have hlex := lex_pasted _ [] 34 _ read_select n.str
  have hcut := pasted_of_lex _ [] 34 _ read_select (by simp) n.str
  constructor
  · rintro ⟨text, htext, hread, hcol⟩
    simp only [Call.text, sprintf] at htext
    split at htext
    · rename_i hlen
      cases htext
      have htake : (selectFormat n.str).take 512 = selectFormat n.str := List.take_of_length_le (Nat.le_of_lt hlen)
      obtain ⟨hq, -⟩ := hcut 512 (by decide) [] ((congrArg lex htake).trans hread)
      exact ⟨hq, hcol, hlen⟩
    · cases htext
  · rintro ⟨hq, hcol, hlen⟩
    refine ⟨selectFormat n.str, if_pos hlen, ?_, hcol⟩
    exact (hlex hq).trans rfl

theorem del_readsAs_iff (n : Name) :
    ReadsAs (snprintf 1024 (deleteFormat n.str)) (.delete n.str) ↔ (Call.del n).Fits := by
  have hlex := lex_pasted _ [] 39 _ read_delete n.str
  have hcut := pasted_of_lex _ [] 39 _ read_delete (by simp) n.str 1023 (by decide) []
  constructor
  · intro h
    obtain ⟨hq, rest, hrest, htake, -⟩ := hcut h
    cases List.prefix_nil.1 hrest
    exact ⟨hq, fits_of_take (by decide) htake⟩
  · rintro ⟨hq, hlen⟩
    rw [take_of_fits hlen]
    exact (hlex hq).trans rfl

def updateFront (md5sum : Str) (now : Int) : Str :=
  ascii "update files set md5sum = '" ++
    (md5sum ++ (ascii "', timestamp = " ++ (dec now ++ ascii " where name ='")))

theorem updateFormat_eq (name md5sum : Str) (now : Int) :
    updateFormat name md5sum now = updateFront md5sum now ++ (name ++ ascii "'") := by
  simp only [updateFormat, updateFront, List.append_assoc]

theorem read_updateFront (m : Checksum) (t : Time) : read ([], .gap) (updateFront m.str (t : Nat)) =
    ((Stmt.update [] m.str t).toks.dropLast, .lit 39 []) := by
  have hm : 39 ∉ m.str := m.not_mem 39 (by decide)
  have hcomma : feed ([], .litQuote 39 m.str) 44 = ([.quoted 39 m.str, .punct 44], .gap) := rfl
  have hstamp : read ([], .gap) (ascii " timestamp = ") = ([kw "timestamp", .punct 61], .gap) := by decide +kernel
  have hblank : feed ([], .num t) 32 = ([.num t], .gap) := rfl
  have hwhere : read ([], .gap) (ascii "where name ='") = ([kw "where", kw "name", .punct 61], .lit 39 []) := by
    decide +kernel
  have hquote : ascii "', timestamp = " = 39 :: 44 :: ascii " timestamp = " := rfl
  have hspace : ascii " where name ='" = 32 :: ascii "where name ='" := rfl
  have hback : read ([], .litQuote 39 m.str) (44 :: ascii " timestamp = ") =
      ([.quoted 39 m.str, .punct 44, kw "timestamp", .punct 61], .gap) := by
    rw [read_cons, hcomma, read_from _ _ _ _ _ hstamp]; rfl
  have hnum : read ([], .num t) (32 :: ascii "where name ='") =
      ([.num t, kw "where", kw "name", .punct 61], .lit 39 []) := by
    rw [read_cons, hblank, read_from _ _ _ _ _ hwhere]; rfl
  rw [updateFront, read_append, read_update, read_append, read_lit_clean _ _ _ _ hm, List.nil_append, read_append, hquote,
    read_cons, feed_lit_quote, read_from _ _ _ _ _ hback, read_append, dec_natCast, read_decNat, hspace,
    read_from _ _ _ _ _ hnum]
  rfl

theorem updateFront_length (md5sum : Str) (now : Int) :
    (updateFront md5sum now).length = md5sum.length + (dec now).length + 56 := by
  have h1 : (ascii "update files set md5sum = '").length = 27 := rfl
  have h2 : (ascii "', timestamp = ").length = 15 := rfl
  have h3 : (ascii " where name ='").length = 14 := rfl
  simp only [updateFront, List.length_append, h1, h2, h3]
  omega

theorem updateFront_length_le (m : Checksum) (t : Time) : (updateFront m.str (t : Nat)).length ≤ 1023 := by
  have hm := m.length_le
  have ht := Time.length_le t
  rw [updateFront_length]
  omega

theorem update_readsAs_iff (n : Name) (m : Checksum) (t : Time) :
    ReadsAs (snprintf 1024 (updateFormat n.str m.str (t : Nat))) (.update n.str m.str t) ↔ (Call.update n m t).Fits := by
  have hlex := lex_pasted _ [] 39 _ (read_updateFront m t) n.str
  have hcut := pasted_of_lex _ [] 39 _ (read_updateFront m t) (by simp) n.str 1023 (updateFront_length_le m t) []
  have hfmt : updateFormat n.str m.str (t : Nat) = updateFront m.str (t : Nat) ++ (n.str ++ [39]) := updateFormat_eq ..
  rw [Call.Fits, hfmt]
  constructor
  · intro h
    obtain ⟨hq, rest, hrest, htake, -⟩ := hcut h
    cases List.prefix_nil.1 hrest
    exact ⟨hq, fits_of_take (by decide) htake⟩
  · rintro ⟨hq, hlen⟩
    rw [take_of_fits hlen]
    exact (hlex hq).trans rfl

def insertBack (md5sum : Str) (now : Int) : Str :=
  ascii ", '" ++ (md5sum ++ (ascii "', " ++ (dec now ++ ascii ")")))

theorem insertFormat_eq (name md5sum : Str) (now : Int) : insertFormat name md5sum now =
    ascii "insert into files (name, md5sum, timestamp) values ('" ++ (name ++ 39 :: insertBack md5sum now) := rfl

theorem read_insertBack (n : Str) (m : Checksum) (t : Time) :
    finish (read ([], .litQuote 39 n) (insertBack m.str (t : Nat))) =
      some (.quoted 39 n :: (Stmt.insert n m.str t).toks.drop 13) := by
  have hm : 39 ∉ m.str := m.not_mem 39 (by decide)
  have hopen : read ([], .litQuote 39 n) (ascii ", '") = ([.quoted 39 n, .punct 44], .lit 39 []) := rfl
  have hclose : ∀ v, read ([.quoted 39 n, .punct 44], .lit 39 v) (ascii "', ") =
      ([.quoted 39 n, .punct 44, .quoted 39 v, .punct 44], .gap) := fun v => rfl
  rw [insertBack, read_append, hopen, read_append, read_lit_clean _ _ _ _ hm, List.nil_append, read_append, hclose,
    read_append, dec_natCast, read_decNat]
  rfl

theorem eq_of_prefix_insertBack (m : Checksum) (t : Time) (rest : Str) (h : rest <+: insertBack m.str (t : Nat))
    (hp : 41 ∈ rest) : rest = insertBack m.str (t : Nat) := by
  have hbody : 41 ∉ ascii ", '" ++ (m.str ++ (ascii "', " ++ dec ((t : Nat) : Int))) := by
    simp only [List.mem_append, not_or]
    refine ⟨by decide, m.not_mem 41 (by decide), by decide, fun h => ?_⟩
    have := mem_dec _ _ h
    revert this; decide
  have hback : insertBack m.str (t : Nat) = (ascii ", '" ++ (m.str ++ (ascii "', " ++ dec ((t : Nat) : Int)))) ++ [41] := by
    simp only [insertBack, List.append_assoc]; rfl
  rw [hback] at h ⊢
  rcases List.prefix_concat_iff.1 h with h | h
  · exact h
  · exact absurd (h.subset hp) hbody

theorem insert_readsAs_iff (n : Name) (m : Checksum) (t : Time) :
    ReadsAs (snprintf 1024 (insertFormat n.str m.str (t : Nat))) (.insert n.str m.str t) ↔ (Call.insert n m t).Fits := by
  have hlex := lex_pasted _ (insertBack m.str (t : Nat)) 39 _ read_insert n.str
  have hhead : (insertBack m.str (t : Nat)).head? ≠ some 39 := by
    simp [insertBack, ascii]
  have hcut := pasted_of_lex _ (insertBack m.str (t : Nat)) 39 _ read_insert hhead n.str 1023 (by decide)
    ((Stmt.insert n.str m.str t).toks.drop 13)
  rw [Call.Fits, insertFormat_eq]
  constructor
  · intro h
    obtain ⟨hq, rest, hrest, htake, hread⟩ := hcut h
    have hp : 41 ∈ rest := mem_of_punct 41 (by decide) (by decide) rest _ _ hread (by simp [Stmt.toks])
    cases eq_of_prefix_insertBack m t rest hrest hp
    exact ⟨hq, fits_of_take (by decide) htake⟩
  · rintro ⟨hq, hlen⟩
    rw [take_of_fits hlen]
    refine (hlex hq).trans ?_
    rw [read_insertBack]
    rfl

/-- **A call's text is its statement exactly when the call fits.** -/
theorem text_readsAs_iff (c : Call) : (∃ text, c.text = some text ∧ ReadsAs text c.stmt) ↔ c.Fits := by
  cases c with
  | find n => exact find_readsAs_iff n
  | insert n m t =>
    rw [← insert_readsAs_iff]
    exact ⟨fun ⟨_, h, hr⟩ => by cases h; exact hr, fun h => ⟨_, rfl, h⟩⟩
  | update n m t =>
    rw [← update_readsAs_iff]
    exact ⟨fun ⟨_, h, hr⟩ => by cases h; exact hr, fun h => ⟨_, rfl, h⟩⟩
  | del n =>
    rw [← del_readsAs_iff]
    exact ⟨fun ⟨_, h, hr⟩ => by cases h; exact hr, fun h => ⟨_, rfl, h⟩⟩

/-! ## A table and the map it holds -/

structure Represents (rows : List TableRow) (db : DbMap) : Prop where
  nodup : (rows.map Prod.fst).Nodup
  mem   : ∀ name r, (name, r) ∈ rows ↔ db name = some r

theorem Represents.perm {rows rows' : List TableRow} {db : DbMap} (h : Represents rows db) (hp : rows'.Perm rows) :
    Represents rows' db :=
  ⟨(hp.map Prod.fst).nodup_iff.2 h.nodup, fun name r => by rw [hp.mem_iff, h.mem]⟩

theorem Represents.insert {rows : List TableRow} {db : DbMap} (h : Represents rows db) (name : Str) (r : Row)
    (hnew : db name = none) : Represents ((name, r) :: rows) (Function.update db name (some r)) := by
  have hout : ∀ r', (name, r') ∉ rows := fun r' hr => by
    rw [h.mem, hnew] at hr; cases hr
  constructor
  · rw [List.map_cons, List.nodup_cons]
    refine ⟨fun hmem => ?_, h.nodup⟩
    obtain ⟨⟨_, r'⟩, hr, rfl⟩ := List.mem_map.1 hmem
    exact hout r' hr
  · intro g r'
    rw [List.mem_cons]
    by_cases hg : g = name
    · subst hg
      simp [hout r', eq_comm]
    · simp [hg, h.mem]

theorem Represents.update {rows : List TableRow} {db : DbMap} (h : Represents rows db) (name : Str) (r : Row) :
    Represents (rows.map (fun x => if x.1 = name then (name, r) else x))
      (Function.update db name ((db name).map (fun _ => r))) := by
  constructor
  · rw [List.map_map]
    have hfst : Prod.fst ∘ (fun x : TableRow => if x.1 = name then (name, r) else x) = Prod.fst := by
      funext x
      simp only [Function.comp_apply]
      split
      · rename_i hx; exact hx.symm
      · rfl
    rw [hfst]
    exact h.nodup
  · intro g r'
    rw [List.mem_map]
    by_cases hg : g = name
    · subst hg
      rw [Function.update_self]
      constructor
      · rintro ⟨⟨n, r₀⟩, hmem, he⟩
        by_cases hn : n = g
        · subst hn
          simp only [if_true, Prod.mk.injEq, true_and] at he
          rw [(h.mem n r₀).1 hmem, ← he]; rfl
        · simp only [hn, if_false, Prod.mk.injEq, false_and] at he
      · intro he
        obtain ⟨r₀, hr₀, rfl⟩ := Option.map_eq_some_iff.1 he
        exact ⟨(g, r₀), (h.mem g r₀).2 hr₀, if_pos rfl⟩
    · rw [Function.update_of_ne hg, ← h.mem]
      constructor
      · rintro ⟨⟨n, r₀⟩, hmem, he⟩
        by_cases hn : n = name
        · simp only [hn, if_true, Prod.mk.injEq] at he
          exact absurd he.1.symm hg
        · simp only [hn, if_false] at he
          rwa [he] at hmem
      · intro hmem
        exact ⟨(g, r'), hmem, if_neg hg⟩

theorem Represents.delete {rows : List TableRow} {db : DbMap} (h : Represents rows db) (name : Str) :
    Represents (rows.filter (fun x => x.1 ≠ name)) (Function.update db name none) := by
  constructor
  · exact h.nodup.sublist (List.filter_sublist.map _)
  · intro g r
    rw [List.mem_filter, h.mem]
    by_cases hg : g = name
    · subst hg
      simp
    · simp [hg]

/-- **A call that fits does to the table what it does to the map, and answers the same.** -/
theorem apply_represents (S : Sqlite σ) (hS : S.Works) (s : σ) (db : DbMap) (h : Represents (S.rows s) db) (c : Call)
    (hc : c.Fits) (hins : ∀ n m t, c = .insert n m t → db n.str = none) :
    ∃ s', (c.apply (fileDb S) (some s)).1 = some s' ∧ Represents (S.rows s') (c.apply mapDb db).1 ∧
      (c.apply (fileDb S) (some s)).2 = (c.apply mapDb db).2 := by
  obtain ⟨text, htext, hread⟩ := (text_readsAs_iff c).2 hc
  cases c with
  | find n =>
    simp only [Call.text] at htext
    have hans : S.query s text = db n.str := by
      cases hq : S.query s text with
      | none =>
        cases hr : db n.str with
        | none => rfl
        | some r => exact absurd ((h.mem n.str r).2 hr) (hS.query_none s text n.str r hread hq)
      | some r => exact ((h.mem n.str r).1 (hS.query_some s text n.str r hread hq)).symm
    refine ⟨s, ?_, h, ?_⟩
    · simp only [Call.apply, fileDb, htext]
    · simp only [Call.apply, fileDb, htext, hans, mapDb]
  | insert n m t =>
    cases htext
    refine ⟨_, rfl, ?_, rfl⟩
    exact (h.insert n.str _ (hins n m t rfl)).perm (hS.exec s _ _ hread)
  | update n m t =>
    cases htext
    refine ⟨_, rfl, ?_, rfl⟩
    exact (h.update n.str _).perm (hS.exec s _ _ hread)
  | del n =>
    cases htext
    refine ⟨_, rfl, ?_, rfl⟩
    exact (h.delete n.str).perm (hS.exec s _ _ hread)

theorem apply_mapDb_frame (c : Call) (db : DbMap) (g : Str) (hg : g ≠ c.name) : (c.apply mapDb db).1 g = db g := by
  cases c with
  | find n => rfl
  | insert n m t => exact Function.update_of_ne hg _ _
  | update n m t => exact Function.update_of_ne hg _ _
  | del n => exact Function.update_of_ne hg _ _

theorem find_mapDb_eq (S : Sqlite σ) (hS : S.Works) (s : σ) (db : DbMap) (h : Represents (S.rows s) db) (n : Name)
    (hc : (Call.find n).Fits) : ((fileDb S).find (some s) n.str).2 = db n.str := by
  obtain ⟨-, -, -, hans⟩ := apply_represents S hS s db h (.find n) hc (fun _ _ _ e => by cases e)
  exact (List.cons.inj hans).1

/-! ## Sequences of calls -/

theorem runCalls_mapDb_frame (db : DbMap) (g : Str) (l : List Call) : ∀ l' : List Call, (∀ c ∈ l', g ≠ c.name) →
    (runCalls mapDb db (l ++ l')).1 g = (runCalls mapDb db l).1 g := by
  intro l'
  induction l' using List.reverseRecOn with
  | nil => intro _; rw [List.append_nil]
  | append_singleton l' c ih =>
    intro h
    rw [← List.append_assoc, runCalls_snoc]
    exact (apply_mapDb_frame c _ g (h c (by simp))).trans (ih (fun c' hc' => h c' (by simp [hc'])))

/-- An insert is made on a name that the last call on it, a find, has reported absent. -/
def InsertsAfterMiss (S : Sqlite σ) (s₀ : σ) (calls : List Call) : Prop :=
  ∀ l n m t, l ++ [.insert n m t] <+: calls → ∃ l₀ l₁, l = l₀ ++ .find n :: l₁ ∧ (∀ c ∈ l₁, n.str ≠ c.name) ∧
    ((fileDb S).find (runCalls (fileDb S) (some s₀) l₀).1 n.str).2 = none

theorem runCalls_represents (S : Sqlite σ) (hS : S.Works) (s₀ : σ) (db₀ : DbMap) (h0 : Represents (S.rows s₀) db₀)
    (calls : List Call) (hins : InsertsAfterMiss S s₀ calls) (hfit : ∀ c ∈ calls, c.Fits) :
    ∀ (k : Nat) (l : List Call), l.length = k → l <+: calls → ∃ s, (runCalls (fileDb S) (some s₀) l).1 = some s ∧
      Represents (S.rows s) (runCalls mapDb db₀ l).1 ∧
      (runCalls (fileDb S) (some s₀) l).2 = (runCalls mapDb db₀ l).2 := by
  intro k
  -- strong induction: an insert looks back at the find that reported its name absent
  induction k using Nat.strongRecOn with
  | ind k ih =>
    intro l hk hl
    rcases List.eq_nil_or_concat l with rfl | ⟨l', c, rfl⟩
    · exact ⟨s₀, rfl, h0, rfl⟩
    · rw [List.concat_eq_append] at hk hl ⊢
      have hlen : l'.length < k := by rw [← hk, List.length_append]; exact Nat.lt_succ_self _
      obtain ⟨s, hs, hrep, hans⟩ := ih l'.length hlen l' rfl ((List.prefix_append l' [c]).trans hl)
      have hmiss : ∀ n m t, c = .insert n m t → (runCalls mapDb db₀ l').1 n.str = none := by
        rintro n m t rfl
        obtain ⟨l₀, l₁, rfl, hl₁, hfind⟩ := hins l' n m t hl
        have hpre : l₀ ++ [.find n] <+: calls :=
          List.IsPrefix.trans ⟨l₁ ++ [.insert n m t], by simp⟩ hl
        have hlen₀ : l₀.length < k := by
          rw [List.length_append] at hlen; omega
        obtain ⟨s', hs', hrep', -⟩ := ih l₀.length hlen₀ l₀ rfl ((List.prefix_append _ _).trans hpre)
        rw [hs', find_mapDb_eq S hS s' _ hrep' n (hfit _ (hpre.subset (by simp)))] at hfind
        have happ : l₀ ++ Call.find n :: l₁ = (l₀ ++ [.find n]) ++ l₁ := by simp
        rw [happ, runCalls_mapDb_frame db₀ n.str _ l₁ hl₁, runCalls_snoc]
        exact hfind
      obtain ⟨s', hs', hrep', hans'⟩ := apply_represents S hS s _ hrep c (hfit c (hl.subset (by simp))) hmiss
      refine ⟨s', ?_, ?_, ?_⟩
      · rw [runCalls_snoc, hs]; exact hs'
      · rw [runCalls_snoc]; exact hrep'
      · rw [runCalls_snoc, runCalls_snoc, hs, hans, hans']

/-- The calls behave as the same calls on a map: every find answers the same, no call changes an entry of another name,
and the text of every call is the statement it means, with the name as given. -/
structure RefinesMap (S : Sqlite σ) (s₀ : σ) (db₀ : DbMap) (calls : List Call) : Prop where
  answers : (runCalls (fileDb S) (some s₀) calls).2 = (runCalls mapDb db₀ calls).2
  frame   : ∀ l c s s', l ++ [c] <+: calls → (runCalls (fileDb S) (some s₀) l).1 = some s →
    (runCalls (fileDb S) (some s₀) (l ++ [c])).1 = some s' →
      ∀ g r, g ≠ c.name → ((g, r) ∈ S.rows s' ↔ (g, r) ∈ S.rows s)
  texts   : ∀ c ∈ calls, ∃ text, c.text = some text ∧ ReadsAs text c.stmt

/-- **`FileDB` refines a map exactly on the sequences of calls that all fit.** -/
theorem refinesMap_iff (S : Sqlite σ) (hS : S.Works) (s₀ : σ) (db₀ : DbMap) (h0 : Represents (S.rows s₀) db₀)
    (calls : List Call) (hins : InsertsAfterMiss S s₀ calls) :
    RefinesMap S s₀ db₀ calls ↔ ∀ c ∈ calls, c.Fits := by
  constructor
  · intro h c hc
    exact (text_readsAs_iff c).1 (h.texts c hc)
  · intro hfit
    have hrun := runCalls_represents S hS s₀ db₀ h0 calls hins hfit
    constructor
    · obtain ⟨-, -, -, hans⟩ := hrun _ calls rfl (List.prefix_refl _)
      exact hans
    · intro l c s s' hl hs hs' g r hg
      obtain ⟨t, ht, hrep, -⟩ := hrun _ l rfl ((List.prefix_append l [c]).trans hl)
      obtain ⟨t', ht', hrep', -⟩ := hrun _ (l ++ [c]) rfl hl
      cases Option.some.inj (hs.symm.trans ht)
      cases Option.some.inj (hs'.symm.trans ht')
      rw [hrep.mem, hrep'.mem, runCalls_snoc, apply_mapDb_frame c _ g hg]
    · exact fun c hc => (text_readsAs_iff c).2 (hfit c hc)

/-! ## `do_analysis` over SQL -/

structure Name.Clean (n : Name) : Prop where
  noDouble  : 34 ∉ n.str
  noSingle  : 39 ∉ n.str
  notColumn : isColumn n.str = false
  short     : (selectFormat n.str).length < 512

theorem selectFormat_length (name : Str) : (selectFormat name).length = name.length + 51 := by
  have h1 : (ascii "select md5sum, timestamp from files where name = \"").length = 50 := rfl
  have h2 : (ascii "\"").length = 1 := rfl
  simp only [selectFormat, List.length_append, h1, h2]
  omega

theorem insertFormat_length (name md5sum : Str) (now : Int) :
    (insertFormat name md5sum now).length = name.length + md5sum.length + (dec now).length + 61 := by
  have h1 : (ascii "insert into files (name, md5sum, timestamp) values ('").length = 53 := rfl
  have h2 : (ascii "', '").length = 4 := rfl
  have h3 : (ascii "', ").length = 3 := rfl
  have h4 : (ascii ")").length = 1 := rfl
  simp only [insertFormat, List.length_append, h1, h2, h3, h4]
  omega

theorem updateFormat_length (name md5sum : Str) (now : Int) :
    (updateFormat name md5sum now).length = name.length + md5sum.length + (dec now).length + 57 := by
  have h1 : (ascii "'").length = 1 := rfl
  rw [updateFormat_eq, List.length_append, updateFront_length, List.length_append, h1]
  omega

theorem deleteFormat_length (name : Str) : (deleteFormat name).length = name.length + 32 := by
  have h1 : (ascii "delete from files where name ='").length = 31 := rfl
  have h2 : (ascii "'").length = 1 := rfl
  simp only [deleteFormat, List.length_append, h1, h2]
  omega

theorem Name.Clean.length_le {n : Name} (h : n.Clean) : n.str.length ≤ 460 := by
  have hs := h.short
  rw [selectFormat_length] at hs
  omega

theorem Name.Clean.insert_fits {n : Name} (h : n.Clean) (m : Checksum) (t : Time) : (Call.insert n m t).Fits := by
  refine ⟨h.noSingle, ?_⟩
  have hn := h.length_le
  have hm := m.length_le
  have ht := Time.length_le t
  rw [insertFormat_length]
  omega

theorem Name.Clean.update_fits {n : Name} (h : n.Clean) (m : Checksum) (t : Time) : (Call.update n m t).Fits := by
  refine ⟨h.noSingle, ?_⟩
  have hn := h.length_le
  have hm := m.length_le
  have ht := Time.length_le t
  rw [updateFormat_length]
  omega

theorem Name.Clean.del_fits {n : Name} (h : n.Clean) : (Call.del n).Fits := by
  refine ⟨h.noSingle, ?_⟩
  have hn := h.length_le
  rw [deleteFormat_length]
  omega

structure SameJudge (S : Sqlite σ) (j : Judge (Option σ)) (k : Judge DbMap) : Prop where
  tasks  : j.toTasks = k.toTasks
  alerts : j.alerts = k.alerts
  db     : ∃ s, j.db = some s ∧ Represents (S.rows s) k.db

/-- **On clean names `do_analysis` does over SQL what it does over a map.** -/
theorem doAnalysis_sameJudge (S : Sqlite σ) (hS : S.Works) (C : Config) (now : Int) (later : Time) (ob : Observed)
    (dir : Str) (n : Name) (hn : n.Clean) (j : Judge (Option σ)) (k : Judge DbMap) (h : SameJudge S j k) :
    SameJudge S (doAnalysis C (fileDb S) now (later : Nat) ob j dir n.str)
      (doAnalysis C mapDb now (later : Nat) ob k dir n.str) := by
  obtain ⟨tasks, dbS, alerts⟩ := j
  obtain ⟨tasks', db, alerts'⟩ := k
  obtain ⟨rfl, rfl, s, rfl, hrep⟩ := h
  have hsame : ∀ (tasks : Tasks) (alerts : List Alert) (s : σ) (db : DbMap), Represents (S.rows s) db →
      SameJudge S ⟨tasks, some s, alerts⟩ ⟨tasks, db, alerts⟩ := fun _ _ s _ hr => ⟨rfl, rfl, s, rfl, hr⟩
  cases hp : C.passes dir n.str with
  | false =>
    rw [doAnalysis_not_passes C _ _ _ _ _ _ _ hp, doAnalysis_not_passes C _ _ _ _ _ _ _ hp]
    exact hsame _ _ s db hrep
  | true =>
    have hfind : (fileDb S).find (some s) n.str = (some s, db n.str) :=
      Prod.ext (by simp only [fileDb, sprintf, if_pos hn.short])
        (find_mapDb_eq S hS s db hrep n ⟨hn.noDouble, hn.notColumn, hn.short⟩)
    cases hrow : db n.str with
    | none =>
      rw [hrow] at hfind
      obtain ⟨s', hs', hrep', -⟩ := apply_represents S hS s db hrep (.insert n ⟨_, ob, rfl⟩ later) (hn.insert_fits _ _)
        (fun _ _ _ e => by cases e; exact hrow)
      have hs' : (fileDb S).insert (some s) n.str (getChecksum ob []).2 (later : Nat) = some s' := hs'
      rw [doAnalysis_new C _ _ _ _ _ _ _ hp hfind, doAnalysis_new C _ _ _ _ _ _ _ hp (mapDb_find hrow), hs']
      exact hsame _ _ s' _ hrep'
    | some r =>
      obtain ⟨sum, ts⟩ := r
      rw [hrow] at hfind
      cases hd : C.delays now ts with
      | true =>
        rw [doAnalysis_delayed C _ _ _ _ _ _ _ hp hfind hd, doAnalysis_delayed C _ _ _ _ _ _ _ hp (mapDb_find hrow) hd]
        exact hsame _ _ s db hrep
      | false =>
        rw [doAnalysis_checked C _ _ _ _ _ _ _ hp hfind hd, doAnalysis_checked C _ _ _ _ _ _ _ hp (mapDb_find hrow) hd]
        by_cases ha : ob.absent = true
        · obtain ⟨s', hs', hrep', -⟩ := apply_represents S hS s db hrep (.del n) hn.del_fits (fun _ _ _ e => by cases e)
          have hs' : (fileDb S).del (some s) n.str = some s' := hs'
          rw [if_pos ha, if_pos ha, hs']
          exact hsame _ _ s' _ hrep'
        · by_cases hsum : (getChecksum ob []).2 ≠ sum
          · obtain ⟨s', hs', hrep', -⟩ := apply_represents S hS s db hrep (.update n ⟨_, ob, rfl⟩ later)
              (hn.update_fits _ _) (fun _ _ _ e => by cases e)
            have hs' : (fileDb S).update (some s) n.str (getChecksum ob []).2 (later : Nat) = some s' := hs'
            rw [if_neg ha, if_neg ha, if_pos hsum, if_pos hsum, hs']
            exact hsame _ _ s' _ hrep'
          · rw [if_neg ha, if_neg ha, if_neg hsum, if_neg hsum]
            exact hsame _ _ s db hrep

/-! ## A SQLite that works -/

/-- The statement a list of tokens spells. -/
def stmtOf (toks : List Tok) : Option Stmt :=
  let strs := toks.filterMap (fun tok => match tok with | .quoted _ v => some v | _ => none)
  let nums := toks.filterMap (fun tok => match tok with | .num n => some n | _ => none)
  let meant : List Stmt := match strs, nums with
    | [n], []     => [.select n, .delete n]
    | [a, b], [t] => [.insert a b t, .update b a t]
    | _, _        => []
  meant.find? (fun stmt => decide (stmt.toks = toks))

/-- The table alone; a text that spells none of the four statements is an error and changes nothing. -/
def plainSqlite : Sqlite (List TableRow) where
  rows s := s
  query s text :=
    match (lex text).bind stmtOf with
    | some (.select name) => (s.find? (fun r => r.1 = name)).map Prod.snd
    | _                   => none
  exec s text :=
    match (lex text).bind stmtOf with
    | some stmt => stmt.onRows s
    | none      => s

theorem stmtOf_toks (stmt : Stmt) : stmtOf stmt.toks = some stmt := by
  have hhead : ∀ a b : Stmt, [a, b].find? (fun stmt => decide (stmt.toks = a.toks)) = some a := fun a b => by
    simp only [List.find?_cons, decide_true]
  -- Of two statements with the same literals the one of another length is passed over.
  have htail : ∀ a b : Stmt, a.toks.length ≠ b.toks.length →
      [a, b].find? (fun stmt => decide (stmt.toks = b.toks)) = some b := fun a b hlength => by
    have hne : a.toks ≠ b.toks := fun heq => hlength (congrArg List.length heq)
    simp only [List.find?_cons, hne, decide_false, decide_true]
  cases stmt with
  | select n => exact hhead (.select n) (.delete n)
  | insert n m t => exact hhead (.insert n m t) (.update m n t)
  | update n m t => exact htail (.insert m n t) (.update n m t) (by simp [Stmt.toks])
  | delete n => exact htail (.select n) (.delete n) (by simp [Stmt.toks])

theorem lex_of_readsAs {text : Str} {stmt : Stmt} (h : ReadsAs text stmt) : (lex text).bind stmtOf = some stmt := by
  have hlex : lex text = some stmt.toks := by
    cases stmt with
    | select n => exact h.1
    | insert n m t => exact h
    | update n m t => exact h
    | delete n => exact h
  rw [hlex, Option.bind_some, stmtOf_toks]

theorem plainSqlite_works : plainSqlite.Works where
  query_some s text name r hread h := by
    simp only [plainSqlite, lex_of_readsAs hread, Option.map_eq_some_iff] at h
    obtain ⟨⟨n, r'⟩, hfind, rfl⟩ := h
    have hn : n = name := by simpa using List.find?_some hfind
    exact hn ▸ List.mem_of_find?_eq_some hfind
  query_none s text name r hread h := by
    simp only [plainSqlite, lex_of_readsAs hread, Option.map_eq_none_iff, List.find?_eq_none] at h
    intro hmem
    exact h _ hmem (by simp)
  exec s text stmt hread := by
    simp only [plainSqlite, lex_of_readsAs hread]
    exact List.Perm.refl _

def recordAndFind (n : Name) : List Call := [.find n, .insert n ⟨_, emptyFile, rfl⟩ ⟨5, by decide⟩, .find n]

theorem find_empty (name : Str) : ((fileDb plainSqlite).find (some []) name).2 = none := by
  cases h : sprintf 512 (selectFormat name) with
  | none => simp only [fileDb, h]
  | some text =>
    simp only [fileDb, h, plainSqlite, List.find?_nil, Option.map_none]
    split <;> rfl

theorem recordAndFind_insertsAfterMiss (n : Name) : InsertsAfterMiss plainSqlite [] (recordAndFind n) := by
  intro l n' m t hl
  match l, hl with
  | [], hl => cases (List.cons_prefix_cons.1 hl).1
  | [a], hl =>
    obtain ⟨rfl, htail⟩ := List.cons_prefix_cons.1 hl
    cases (List.cons_prefix_cons.1 htail).1
    exact ⟨[], [], rfl, by simp, find_empty _⟩
  | [a, b], hl =>
    have h := (List.cons_prefix_cons.1 (List.cons_prefix_cons.1 hl).2).2
    cases (List.cons_prefix_cons.1 h).1
  | a :: b :: c :: l, hl =>
    have h := hl.length_le
    simp only [recordAndFind, List.length_append, List.length_cons, List.length_nil] at h
    omega

def quotedName : Name := ⟨ascii "/w/a'b", by decide, by decide, by decide⟩

def plainName : Name := ⟨ascii "/w/f", by decide, by decide, by decide⟩

theorem quotedName_not_found : (runCalls (fileDb plainSqlite) (some []) (recordAndFind quotedName)).2 = [none, none] := by
  decide +kernel

/-- The insert of `/w/a'b` is a syntax error and nobody looks: the file is not found again. -/
theorem quotedName_not_refinesMap :
    InsertsAfterMiss plainSqlite [] (recordAndFind quotedName) ∧
      (runCalls (fileDb plainSqlite) (some []) (recordAndFind quotedName)).2 = [none, none] ∧
      ¬ RefinesMap plainSqlite [] (fun _ => none) (recordAndFind quotedName) := by
  refine ⟨recordAndFind_insertsAfterMiss _, quotedName_not_found, fun h => ?_⟩
  have hanswers := h.answers
  rw [quotedName_not_found] at hanswers
  exact absurd hanswers (by decide +kernel)

theorem plainName_refinesMap : RefinesMap plainSqlite [] (fun _ => none) (recordAndFind plainName) :=
  (refinesMap_iff plainSqlite plainSqlite_works [] (fun _ => none) ⟨by simp [plainSqlite], by simp [plainSqlite]⟩ _
    (recordAndFind_insertsAfterMiss _)).2 (by
      intro c hc
      simp only [recordAndFind, List.mem_cons, List.not_mem_nil, or_false] at hc
      rcases hc with rfl | rfl | rfl
      · exact ⟨by decide, by decide, by decide +kernel⟩
      · exact ⟨by decide, by decide +kernel⟩
      · exact ⟨by decide, by decide, by decide +kernel⟩)

end CheckRealtime
