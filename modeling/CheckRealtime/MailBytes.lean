import CheckRealtime.Mailman
import CheckRealtime.Smtp
/-!
# MailBytes — what a receiver reads of an alert mail

The bytes of a dialogue that is got through are glued from texts that were printed into buffers.  `receiver_reads_iff`
says when the receiver of `Smtp` reads the dialogue that is meant: when every text fits its buffer, and nothing in the
name of the file stops the message.
-/
namespace CheckRealtime

open Smtp (crlf dot unlines pieces Item)

/-! ## Parts -/

/-- One message: a text as it stands, or a string printed into a buffer. -/
inductive Part where
  | text (t : Str)
  | print (size : Nat) (f : Format) (s : Str)

namespace Part

def sent : Part → Str
  | text t         => t
  | print size f s => snprintf size (f.print s)

/-- The message with the whole string. -/
def full : Part → Str
  | text t      => t
  | print _ f s => f.before ++ (s ++ f.after)

def Fits : Part → Prop
  | text _         => True
  | print size f s => 0 ∉ s ∧ f.before.length + s.length + f.after.length ≤ size - 1

theorem sent_of_fits {p : Part} (h : p.Fits) : p.sent = p.full := by
  cases p with
  | text t => rfl
  | print size f s =>
    obtain ⟨hnul, hlen⟩ := h
    rw [sent, full, Format.print, cstr_of_notMem hnul, snprintf, List.take_of_length_le]
    simp only [List.length_append]
    omega

theorem sent_length_le (p : Part) : p.sent.length ≤ p.full.length := by
  cases p with
  | text t => exact Nat.le_refl _
  | print size f s =>
    have hle := cstr_length_le s
    simp only [sent, full, Format.print, snprintf, List.length_take, List.length_append]
    omega

theorem fits_of_length {p : Part} (h : p.full.length ≤ p.sent.length) : p.Fits := by
  cases p with
  | text t => trivial
  | print size f s =>
    have hle := cstr_length_le s
    simp only [sent, full, Format.print, snprintf, List.length_take, List.length_append] at h
    exact ⟨notMem_of_cstr_length (by omega), by omega⟩

theorem sent_flatten_length_le : ∀ (ps : List Part), (ps.map sent).flatten.length ≤ (ps.map full).flatten.length
  | []      => Nat.le_refl _
  | p :: ps => by
    have h1 := sent_length_le p
    have h2 := sent_flatten_length_le ps
    simp only [List.map_cons, List.flatten_cons, List.length_append]
    omega

/-- **No byte is missing exactly when every message fits.** -/
theorem fits_iff : ∀ (ps : List Part), (ps.map full).flatten.length ≤ (ps.map sent).flatten.length ↔ ∀ p ∈ ps, p.Fits
  | []      => by simp
  | p :: ps => by
    have h1 := sent_length_le p
    have h2 := sent_flatten_length_le ps
    rw [List.forall_mem_cons, ← fits_iff ps]
    simp only [List.map_cons, List.flatten_cons, List.length_append]
    constructor
    · exact fun h => ⟨fits_of_length (by omega), by omega⟩
    · rintro ⟨hp, h⟩
      rw [sent_of_fits hp]
      omega

theorem sent_eq_full {ps : List Part} (h : ∀ p ∈ ps, p.Fits) : ps.map sent = ps.map full :=
  List.map_congr_left (fun p hp => sent_of_fits (h p hp))

end Part

/-- The messages of an alert mail. -/
def Mailman.parts (m : Mailman) (now : Tm) (level : Level) (dir name : Str) : List Part :=
  [Part.text HELO_MSG, Part.print 127 LINE (ascii "AUTH LOGIN"), Part.print 127 LINE m.username,
    Part.print 127 LINE m.password, Part.print 127 MAIL_FROM m.from_] ++
  (m.to_.map (Part.print 127 RCPT_TO) ++ ([Part.text DATA_MSG] ++
  (m.to_.map (Part.print 127 TO) ++
  [Part.print 127 FROM m.from_, Part.text (now.date ++ ascii "\r\n"), Part.print 127 SUBJECT mailSubject,
    Part.print 512 BODY (mailBody level dir name), Part.text END_DATA, Part.text QUIT_MSG])))

theorem said_eq_parts {m : Mailman} {recvs : List Str} (now : Tm) (level : Level) (dir name : Str)
    (h : m.ends now mailSubject (mailBody level dir name) recvs = true) :
    m.said now mailSubject (mailBody level dir name) recvs = (m.parts now level dir name).map Part.sent := by
  rw [Mailman.said, if_pos h, Dialogue.run_of_passed fits _ _ h]
  simp [Mailman.script, Mailman.mail, Mailman.parts, Part.sent, strftime_date, List.flatMap_map, Function.comp_def,
    ← List.map_eq_flatMap]

/-! ## The dialogue that is meant -/

/-- The lines that name the sender and the recipients. -/
def Mailman.envelope (m : Mailman) : List Str :=
  (ascii "Mail From: <" ++ (m.from_ ++ ascii ">")) :: m.to_.map (fun it => ascii "Rcpt To: <" ++ (it ++ ascii ">"))

/-- The lines of the mail above the alert. -/
def Mailman.heading (m : Mailman) (now : Tm) : List Str :=
  m.to_.map (fun it => ascii "To: <" ++ (it ++ ascii ">")) ++
  [ascii "From: file checker <" ++ (m.from_ ++ ascii ">"), now.date,
    ascii "Subject: " ++ mailSubject, [], ascii "Attention please!"]

def Mailman.letter (m : Mailman) (now : Tm) (level : Level) (dir name : Str) : List Str :=
  m.heading now ++ (pieces (getAlert level dir name) ++ [[]])

def Mailman.intended (m : Mailman) (now : Tm) (level : Level) (dir name : Str) : List Item :=
  [Item.command (ascii "Helo world"), Item.command (ascii "AUTH LOGIN"), Item.credential m.username,
    Item.credential m.password] ++
  (m.envelope.map Item.command ++
  [Item.command (ascii "DATA"), Item.message (m.letter now level dir name), Item.command (ascii "QUIT")])

/-- The lines up to the mail. -/
def Mailman.opening (m : Mailman) : List Str :=
  [ascii "Helo world", ascii "AUTH LOGIN", m.username, m.password] ++ (m.envelope ++ [ascii "DATA"])

/-- A string without a line break. -/
def OneLine (s : Str) : Prop := 13 ∉ s ∧ 10 ∉ s

/-- What the configuration gives holds no line break. -/
def Mailman.Plain (m : Mailman) : Prop := ∀ s ∈ m.from_ :: m.username :: m.password :: m.to_, OneLine s

/-- The whole messages are the lines up to the alert, the alert, and the lines after it. -/
theorem full_flatten (m : Mailman) (now : Tm) (level : Level) (dir name : Str) :
    ((m.parts now level dir name).map Part.full).flatten =
      unlines (m.opening ++ m.heading now) ++
        (getAlert level dir name ++ (crlf ++ unlines [[], dot, ascii "QUIT"])) := by
  have hflat : ∀ (f : Str → Str) (g : Str → Part), (∀ s, (g s).full = f s ++ crlf) → ∀ ls : List Str,
      (ls.map (Part.full ∘ g)).flatten = unlines (ls.map f) := fun f g h ls => by
    induction ls with
    | nil => rfl
    | cons s ls ih => rw [List.map_cons, List.flatten_cons, ih, List.map_cons, Smtp.unlines_cons, Function.comp_apply, h]
  have hto := hflat (fun it => ascii "To: <" ++ (it ++ ascii ">")) (.print 127 TO) (fun s => by
    show _ ++ (s ++ (ascii ">" ++ crlf)) = _
    simp [TO])
  have hrcpt := hflat (fun it => ascii "Rcpt To: <" ++ (it ++ ascii ">")) (.print 127 RCPT_TO) (fun s => by
    show _ ++ (s ++ (ascii ">" ++ crlf)) = _
    simp [RCPT_TO])
  have hend : ascii ">\r\n" = ascii ">" ++ crlf := rfl
  have hline : ascii "\r\n" = crlf := rfl
  have hhelo : HELO_MSG = ascii "Helo world" ++ crlf := rfl
  have hdata : DATA_MSG = ascii "DATA" ++ crlf := rfl
  have hquit : QUIT_MSG = ascii "QUIT" ++ crlf := rfl
  have hdot : END_DATA = crlf ++ (dot ++ crlf) := rfl
  have hbody : ascii "Attention please!\r\n" = ascii "Attention please!" ++ crlf := rfl
  simp only [Mailman.parts, List.map_append, List.flatten_append, List.map_map, hto, hrcpt, Mailman.opening,
    Mailman.envelope, Mailman.heading, Smtp.unlines_append, Smtp.unlines_cons, Smtp.unlines_nil, List.map_cons,
    List.map_nil, List.flatten_cons, List.flatten_nil, Part.full, LINE, MAIL_FROM, FROM, SUBJECT, BODY, mailBody, hend,
    hline, hhelo, hdata, hquit, hdot, hbody, List.append_assoc, List.nil_append, List.append_nil]

theorem opening_oneLine {m : Mailman} (h : m.Plain) : ∀ l ∈ m.opening, 13 ∉ l := by
  have hfrom := (h m.from_ (by simp)).1
  intro l hl
  simp only [Mailman.opening, Mailman.envelope, List.mem_append, List.mem_cons, List.mem_map, List.not_mem_nil,
    or_false] at hl
  rcases hl with (rfl | rfl | rfl | rfl) | (rfl | ⟨it, hit, rfl⟩) | rfl
  · decide
  · decide
  · exact (h m.username (by simp)).1
  · exact (h m.password (by simp)).1
  · exact notMem_around (by decide) hfrom (by decide)
  · exact notMem_around (by decide) (h it (by simp [hit])).1 (by decide)
  · decide

theorem heading_oneLine {m : Mailman} (h : m.Plain) (now : Tm) : ∀ l ∈ m.heading now, 13 ∉ l := by
  intro l hl
  simp only [Mailman.heading, List.mem_append, List.mem_cons, List.mem_map, List.not_mem_nil, or_false] at hl
  rcases hl with ⟨it, hit, rfl⟩ | rfl | rfl | rfl | rfl | rfl
  · exact notMem_around (by decide) (h it (by simp [hit])).1 (by decide)
  · exact notMem_around (by decide) (h m.from_ (by simp)).1 (by decide)
  · exact fun hd => absurd (date_printable now 13 hd) (by decide)
  · decide
  · decide
  · decide

/-- **The lines of the whole messages.** -/
theorem pieces_full {m : Mailman} (h : m.Plain) (now : Tm) (level : Level) (dir name : Str) :
    pieces ((m.parts now level dir name).map Part.full).flatten =
      (m.opening ++ (m.letter now level dir name ++ [dot, ascii "QUIT"])) ++ [[]] := by
  have hhead : ∀ l ∈ m.opening ++ m.heading now, 13 ∉ l := fun l hl =>
    (List.mem_append.1 hl).elim (opening_oneLine h l) (heading_oneLine h now l)
  have hlast : pieces (unlines [[], dot, ascii "QUIT"]) = [[], dot, ascii "QUIT", []] := by
    have hfree : ∀ l ∈ [[], dot, ascii "QUIT"], 13 ∉ l := by decide +kernel
    exact Smtp.pieces_unlines [] hfree
  rw [full_flatten, Smtp.pieces_unlines _ hhead, Smtp.pieces_append_crlf, hlast, Mailman.letter]
  simp only [List.append_assoc, List.cons_append, List.nil_append]

/-- **The dialogue that is meant takes all the bytes of the whole messages.** -/
theorem size_intended {m : Mailman} (h : m.Plain) (now : Tm) (level : Level) (dir name : Str) :
    Smtp.size (m.intended now level dir name) = ((m.parts now level dir name).map Part.full).flatten.length := by
  have hcmd : ∀ ls : List Str, Smtp.size (ls.map .command) = (unlines ls).length := fun ls => by
    induction ls with
    | nil => rfl
    | cons l ls ih =>
      rw [List.map_cons, Smtp.size_cons, ih, Smtp.unlines_cons, List.length_append, List.length_append]
      rfl
  have hfull := Smtp.unlines_pieces ((m.parts now level dir name).map Part.full).flatten
  rw [pieces_full h, Smtp.unlines_append] at hfull
  rw [← List.append_cancel_right hfull]
  have hdot : dot.length = 1 := rfl
  have hcrlf : crlf.length = 2 := rfl
  simp only [Mailman.intended, Mailman.opening, Smtp.size_append, Smtp.size_cons, Smtp.size_nil, Smtp.Item.size, hcmd,
    Smtp.unlines_append, Smtp.unlines_cons, Smtp.unlines_nil, List.length_append, List.length_nil, hdot, hcrlf]
  omega

/-- **What is read of the whole messages, up to the mail.** -/
theorem receive_full {m : Mailman} (h : m.Plain) (dots : Bool) (now : Tm) (level : Level) (dir name : Str) :
    Smtp.receive dots ((m.parts now level dir name).map Part.full).flatten =
      ([.command (ascii "Helo world"), .command (ascii "AUTH LOGIN"), .credential m.username, .credential m.password] ++
        (m.envelope.map .command ++ (.command (ascii "DATA") ::
          Smtp.reads dots (.data []) (m.letter now level dir name ++ dot :: [ascii "QUIT"]))), []) := by
  rw [Smtp.receive_of_pieces dots (pieces_full h now level dir name)]
  have henv : ∀ l ∈ m.envelope, Smtp.next l = .command := by
    intro l hl
    simp only [Mailman.envelope, List.mem_cons, List.mem_map] at hl
    rcases hl with rfl | ⟨it, -, rfl⟩
    · rfl
    · rfl
  have hhelo : Smtp.next (ascii "Helo world") = .command := rfl
  have hauth : Smtp.next (ascii "AUTH LOGIN") = .username := rfl
  have hdata : Smtp.next (ascii "DATA") = .data [] := rfl
  simp only [Mailman.opening, List.append_assoc, List.cons_append, List.nil_append, Smtp.reads, hhelo, hauth,
    Smtp.reads_commands _ henv, hdata]

/-- A string that every text of the mail has room for. -/
def Room (n : Nat) (s : Str) : Prop := 0 ∉ s ∧ s.length ≤ n

/-- Every address and both credentials fit the buffers of 127 bytes: the sender by its `From:` line, a recipient by its
`Rcpt To:` line. -/
structure Mailman.Fits (m : Mailman) : Prop where
  from_    : Room 103 m.from_
  to_      : ∀ it ∈ m.to_, Room 113 it
  username : Room 124 m.username
  password : Room 124 m.password

theorem fits_print_iff {size n : Nat} {f : Format} {s : Str} (h : f.before.length + f.after.length + n = size - 1) :
    (Part.print size f s).Fits ↔ Room n s := by
  refine and_congr_right (fun _ => ?_)
  omega

theorem mailBody_room {level : Level} {dir name : Str} (h : 0 ∉ name) :
    Room 507 (mailBody level dir name) ↔ name.length ≤ 463 := by
  have hnul : 0 ∉ haveBeen level := by cases level <;> decide
  have hlen : (haveBeen level).length = 20 := by cases level <;> rfl
  have hbefore : ¬ (0 ∈ ascii "Attention please!\r\n" ∨ 0 ∈ ascii "File ") := by decide
  have hbody : mailBody level dir name = (ascii "Attention please!\r\n" ++ ascii "File ") ++ (name ++ haveBeen level) := by
    rw [mailBody, getAlert, List.append_assoc]
  have h24 : (ascii "Attention please!\r\n" ++ ascii "File ").length = 24 := rfl
  rw [Room, hbody, List.mem_append, List.mem_append, List.mem_append]
  simp only [List.length_append] at h24 ⊢
  rw [and_iff_right (fun hm => hm.elim hbefore (fun hm => hm.elim h hnul)), hlen]
  omega

/-- **When every message fits its buffer.** -/
theorem parts_fit_iff (m : Mailman) (now : Tm) (level : Level) (dir name : Str) (hname : 0 ∉ name) :
    (∀ p ∈ m.parts now level dir name, p.Fits) ↔ m.Fits ∧ name.length ≤ 463 := by
  have htext : ∀ t, (Part.text t).Fits ↔ True := fun t => Iff.rfl
  have hline : ∀ s, (Part.print 127 LINE s).Fits ↔ Room 124 s := fun s => fits_print_iff rfl
  have hmail : ∀ s, (Part.print 127 MAIL_FROM s).Fits ↔ Room 111 s := fun s => fits_print_iff rfl
  have hrcpt : ∀ s, (Part.print 127 RCPT_TO s).Fits ↔ Room 113 s := fun s => fits_print_iff rfl
  have hto : ∀ s, (Part.print 127 TO s).Fits ↔ Room 118 s := fun s => fits_print_iff rfl
  have hfrom : ∀ s, (Part.print 127 FROM s).Fits ↔ Room 103 s := fun s => fits_print_iff rfl
  have hsubject : (Part.print 127 SUBJECT mailSubject).Fits ↔ Room 115 mailSubject := fits_print_iff rfl
  have hbody : (Part.print 512 BODY (mailBody level dir name)).Fits ↔ name.length ≤ 463 :=
    (fits_print_iff rfl).trans (mailBody_room hname)
  have hauth : Room 124 (ascii "AUTH LOGIN") := ⟨by decide, by decide⟩
  have hwarning : Room 115 mailSubject := ⟨by decide, by decide⟩
  have hle : ∀ {n k : Nat} {s : Str}, n ≤ k → Room n s → Room k s := fun hnk h => ⟨h.1, Nat.le_trans h.2 hnk⟩
  simp only [Mailman.parts, List.forall_mem_append, List.forall_mem_cons, List.forall_mem_map, List.not_mem_nil,
    htext, hline, hmail, hrcpt, hto, hfrom, hsubject, hbody, hauth, hwarning, true_and, false_implies, implies_true,
    and_true]
  constructor
  · rintro ⟨⟨hu, hp, -⟩, hr, -, hf, hn⟩
    exact ⟨⟨hf, hr, hu, hp⟩, hn⟩
  · rintro ⟨⟨hf, hr, hu, hp⟩, hn⟩
    exact ⟨⟨hu, hp, hle (by decide) hf⟩, hr, fun it hit => hle (by decide) (hr it hit), hf, hn⟩

/-- What stands around the file name in the alert neither stops a message nor helps the name to do so. -/
theorem stop_infix_iff (dots : Bool) (level : Level) (dir name : Str) :
    Smtp.stop dots <:+: crlf ++ (getAlert level dir name ++ crlf) ↔ Smtp.stop dots <:+: name := by
  have hblank : 32 ∉ Smtp.stop dots := by cases dots <;> decide
  have hbefore : ¬ Smtp.stop dots <:+: crlf ++ ascii "File" := by cases dots <;> decide
  obtain ⟨rest, hrest, hafter⟩ : ∃ rest, haveBeen level = 32 :: rest ∧ ¬ Smtp.stop dots <:+: rest ++ crlf := by
    cases level
    · exact ⟨ascii "have been changed!!", rfl, by cases dots <;> decide⟩
    · exact ⟨ascii "have been created!!", rfl, by cases dots <;> decide⟩
    · exact ⟨ascii "have been deleted!!", rfl, by cases dots <;> decide⟩
  have hfile : ascii "File " = ascii "File" ++ [32] := rfl
  have e : crlf ++ (getAlert level dir name ++ crlf) = (crlf ++ ascii "File") ++ 32 :: (name ++ 32 :: (rest ++ crlf)) := by
    rw [getAlert, hrest, hfile]
    simp only [List.append_assoc, List.cons_append, List.nil_append]
  rw [e]
  constructor
  · intro h
    have h := (Smtp.infix_append_cons hblank _ h).resolve_left hbefore
    exact (Smtp.infix_append_cons hblank _ h).resolve_right hafter
  · rintro ⟨x, y, rfl⟩
    exact ⟨(crlf ++ ascii "File") ++ 32 :: x, y ++ 32 :: (rest ++ crlf), by simp⟩

theorem letter_intact_iff (m : Mailman) (dots : Bool) (now : Tm) (level : Level) (dir name : Str) :
    (∀ l ∈ m.letter now level dir name, Smtp.Intact dots l) ↔ ¬ Smtp.stop dots <:+: name := by
  have hhead : ∀ l ∈ m.heading now, Smtp.Intact dots l := by
    intro l hl
    simp only [Mailman.heading, List.mem_append, List.mem_cons, List.mem_map, List.not_mem_nil, or_false] at hl
    rcases hl with ⟨it, -, rfl⟩ | rfl | rfl | rfl | rfl | rfl
    · exact Smtp.intact_of_cons (by decide : (84 : UInt8) ≠ 46) _
    · exact Smtp.intact_of_cons (by decide : (70 : UInt8) ≠ 46) _
    · exact Smtp.intact_of_cons (by decide : (68 : UInt8) ≠ 46) _
    · exact Smtp.intact_of_cons (by decide : (83 : UInt8) ≠ 46) _
    · exact Smtp.intact_nil dots
    · exact Smtp.intact_of_cons (by decide : (65 : UInt8) ≠ 46) _
  have hlast : ∀ l ∈ ([[]] : List Str), Smtp.Intact dots l := fun l hl => List.mem_singleton.1 hl ▸ Smtp.intact_nil dots
  rw [← stop_infix_iff dots level dir name, ← Smtp.intact_iff, Mailman.letter, List.forall_mem_append,
    List.forall_mem_append, and_iff_right hhead, and_iff_left hlast]

/-! ## The stream -/

/-- The server is there, takes every message whole, and gives the reply that is hoped for to each command. -/
structure Mailman.Served (m : Mailman) (net : Network) : Prop where
  connects : m.Connects net
  whole    : net.sends = []
  positive : m.answered net.recvs = m.codes.length

theorem bytes_of_served {m : Mailman} {net : Network} (h : m.Served net) (now : Tm) (level : Level) (dir name : Str) :
    (m.sendMail now level dir name net.link).1.link.bytes = ((m.parts now level dir name).map Part.sent).flatten := by
  have hconn : m.Connects net.link.toNetwork := h.connects
  have hends : m.ends now mailSubject (mailBody level dir name) net.recvs = true := by
    have hpos := h.positive
    rw [Mailman.answered, ← script_codes m now mailSubject (mailBody level dir name), List.length_map] at hpos
    exact (Dialogue.passed_eq_length_iff fits _ _).1 hpos
  obtain ⟨rs, error, hout, -⟩ := sendmail_spec hconn now mailSubject (mailBody level dir name)
  rw [Mailman.sendMail, hout]
  show ([] ++ results net.sends (m.said now mailSubject (mailBody level dir name) net.recvs)).flatMap _ = _
  rw [List.nil_append, h.whole, bytes_results, said_eq_parts now level dir name hends]

/-- **The receiver reads the dialogue that is meant exactly when every text fits its buffer and the file name holds
nothing that stops a message.** -/
theorem receiver_reads_iff (dots : Bool) (m : Mailman) (now : Tm) (level : Level) (dir name : Str) (net : Network)
    (hnet : m.Served net) (hplain : m.Plain) (hname : 0 ∉ name) :
    Smtp.receive dots (m.sendMail now level dir name net.link).1.link.bytes = (m.intended now level dir name, []) ↔
      (m.Fits ∧ name.length ≤ 463) ∧ ¬ Smtp.stop dots <:+: name := by
  have hread : Smtp.receive dots ((m.parts now level dir name).map Part.full).flatten =
      (m.intended now level dir name, []) ↔ ¬ Smtp.stop dots <:+: name := by
    rw [receive_full hplain, ← letter_intact_iff m dots now level dir name,
      ← Smtp.reads_message_iff dots _ [ascii "QUIT"], Mailman.intended, Prod.mk.injEq, and_iff_left rfl,
      List.append_cancel_left_eq, List.append_cancel_left_eq]
    exact ⟨fun h => List.tail_eq_of_cons_eq h, fun h => congrArg _ h⟩
  rw [bytes_of_served hnet, ← parts_fit_iff m now level dir name hname]
  constructor
  · intro h
    -- the dialogue that is meant takes as many bytes as the whole messages, so none of them was cut
    have hsize := Smtp.size_receive_le dots ((m.parts now level dir name).map Part.sent).flatten
    rw [h, size_intended hplain] at hsize
    have hfits := (Part.fits_iff _).1 (Nat.le_trans (Nat.le_add_right _ _) hsize)
    rw [Part.sent_eq_full hfits] at h
    exact ⟨hfits, hread.1 h⟩
  · rintro ⟨hfits, hstop⟩
    rw [Part.sent_eq_full hfits]
    exact hread.2 hstop

/-- One recipient, and a server on the host itself. -/
def localMail : Mailman :=
  ⟨[ascii "root@localhost"], ascii "monitor@localhost", ascii "127.0.0.1", ascii "dXNlcg==", ascii "cGFzcw=="⟩

def localNet : Network :=
  ⟨3, 0, [], ["220 ready", "250 ok", "334 user", "334 pass", "235 in", "250 ok", "250 ok", "354 go", "250 ok"].map ascii⟩

theorem localNet_served : localMail.Served localNet := ⟨⟨by decide +kernel, by decide, by decide⟩, rfl, by decide +kernel⟩

theorem localMail_plain : localMail.Plain := fun s hs => by
  have hall : ∀ s ∈ localMail.from_ :: localMail.username :: localMail.password :: localMail.to_, 13 ∉ s ∧ 10 ∉ s := by
    decide +kernel
  exact hall s hs

theorem localMail_read : Smtp.receive true (localMail.sendMail ⟨0, 0, 0, 1, 0, 70, 4⟩ .changed (ascii "/etc")
    (ascii "/etc/passwd") localNet.link).1.link.bytes =
      (localMail.intended ⟨0, 0, 0, 1, 0, 70, 4⟩ .changed (ascii "/etc") (ascii "/etc/passwd"), []) :=
  (receiver_reads_iff true localMail _ .changed _ _ localNet localNet_served localMail_plain (by decide)).2
    ⟨⟨⟨⟨by decide +kernel, by decide +kernel⟩, fun it hit => by
      rw [List.mem_singleton.1 hit]; exact ⟨by decide +kernel, by decide +kernel⟩, ⟨by decide +kernel, by decide +kernel⟩,
      ⟨by decide +kernel, by decide +kernel⟩⟩, by decide +kernel⟩, by decide +kernel⟩

/-- A line of one dot in the name ends the mail, and what follows it is read as a command. -/
theorem receiver_reads_name : ¬ ∀ (m : Mailman) (now : Tm) (level : Level) (dir name : Str) (net : Network),
    m.Served net → m.Plain → 0 ∉ name →
      Smtp.receive false (m.sendMail now level dir name net.link).1.link.bytes = (m.intended now level dir name, []) :=
  fun h => absurd (h localMail ⟨0, 0, 0, 1, 0, 70, 4⟩ .created (ascii "/tmp") (ascii "/tmp/x\r\n.\r\nRSET\r\n") localNet
    localNet_served localMail_plain (by decide)) (by decide +kernel)

end CheckRealtime
