import CheckRealtime.Dialogue
import CheckRealtime.FileAnalysis
/-!
# Mailman — `mailman.cpp`, and `send_mail` of `monitor.cpp`

`sendmail` is a dialogue over one socket: each turn sends one or more messages and takes whatever one `recv` returns for
the reply.  `sendmail_spec` says that it is the run of `Mailman.script`, and `sendmail_reports_iff` what its return code
tells.  What is printed on the way is left out, but for the message of the handler.
-/
namespace CheckRealtime

/-! ## The socket -/

/-- What the calls of one dialogue return, in order.  A `send` past the end of its list takes the whole message; a
`recv` that stands past the end, like one that returns no byte, has met the end of the stream or has failed. -/
structure Network where
  socket  : Int
  connect : Int
  sends   : List Int
  recvs   : List Str

/-- The results to come, the messages handed to `send` with what it returned for each, and the open descriptors. -/
structure Link extends Network where
  sent : List (Str × Int)
  fds  : List Int

def Network.link (net : Network) : Link := { net with sent := [], fds := [] }

def Link.commands (l : Link) : List Str := l.sent.map Prod.fst

/-- The bytes that left. -/
def Link.bytes (l : Link) : Str := l.sent.flatMap (fun m => m.1.take m.2.toNat)

/-- Code that may throw a `string`. -/
abbrev Session := ExceptT Str (StateM Link)

def exec {α : Type} (p : Session α) (l : Link) : Except Str α × Link := StateT.run (ExceptT.run p) l

def connectTcp (ip : Str) : Session Int := do
  let l ← get
  if l.socket < 0 then return -1
  set { l with fds := l.socket :: l.fds }
  if cstr ip = [] then return -1
  if l.connect < 0 then return -1
  return l.socket

def sendTcp (_socket : Int) (msg : Str) : Session Int := do
  let l ← get
  let rc := l.sends.headD (cstr msg).length
  set { l with sends := l.sends.tail, sent := l.sent ++ [(cstr msg, rc)] }
  return if rc ≤ 0 then -1 else 0

/-- `NULL`, or the bytes in the buffer. -/
def recvTcp (_socket : Int) (size : Nat) : Session (Option Str) := do
  let l ← get
  set { l with recvs := l.recvs.tail }
  let ret := (l.recvs.headD []).take (size - 1)
  return if ret = [] then none else some ret

def close (socket : Int) : Session Unit := modify (fun l => { l with fds := l.fds.erase socket })

def mismatch (token str : Str) : Str := snprintf 512 (ascii "mismatch " ++ (token ++ (ascii ":" ++ cstr str)))

def matchReply (token : Str) : Option Str → Session Unit
  | none     => throw (ascii "ddd")
  | some str =>
    if token.length > (cstr str).length then throw (mismatch token str)
    else if (cstr str).take token.length = token then return
    else throw (mismatch token str)

/-! ## The texts -/

def VALIDBANNER : Str := ascii "220"
def VALIDMAIL : Str := ascii "250"
def VALIDDATA : Str := ascii "354"
def VALIDAUTH : Str := ascii "334"
def AUTHOK : Str := ascii "235"

/-- A format with one `%s`: what stands before it and after it. -/
structure Format where
  before : Str
  after  : Str

def Format.print (f : Format) (s : Str) : Str := f.before ++ (cstr s ++ f.after)

def HELO_MSG : Str := ascii "Helo world\r\n"
def DATA_MSG : Str := ascii "DATA\r\n"
def END_DATA : Str := ascii "\r\n.\r\n"
def QUIT_MSG : Str := ascii "QUIT\r\n"
def MAIL_FROM : Format := ⟨ascii "Mail From: <", ascii ">\r\n"⟩
def RCPT_TO : Format := ⟨ascii "Rcpt To: <", ascii ">\r\n"⟩
def FROM : Format := ⟨ascii "From: file checker <", ascii ">\r\n"⟩
def TO : Format := ⟨ascii "To: <", ascii ">\r\n"⟩
def SUBJECT : Format := ⟨ascii "Subject: ", ascii "\r\n"⟩
/-- `"%s\r\n"`. -/
def LINE : Format := ⟨[], ascii "\r\n"⟩
/-- `"\r\n%s\r\n"`. -/
def BODY : Format := ⟨ascii "\r\n", ascii "\r\n"⟩

/-- What `gmtime_r` leaves in `tmval`. -/
structure Tm where
  sec  : Fin 61
  min  : Fin 60
  hour : Fin 24
  mday : Fin 32
  mon  : Fin 12
  year : Int
  wday : Fin 7

def dayNames : List String := ["Sun", "Mon", "Tue", "Wed", "Thu", "Fri", "Sat"]

def monthNames : List String := ["Jan", "Feb", "Mar", "Apr", "May", "Jun", "Jul", "Aug", "Sep", "Oct", "Nov", "Dec"]

def dayName (wday : Fin 7) : Str := ascii (dayNames.get wday)

def monthName (mon : Fin 12) : Str := ascii (monthNames.get mon)

/-- `"%02d"` of a number below 100. -/
def twoDigits (n : Nat) : Str := [UInt8.ofNat (48 + n / 10), UInt8.ofNat (48 + n % 10)]

/-- `"Date: %a, %d %b %Y %T %z"`; `tm_year` is an `int` that counts from 1900. -/
def Tm.date (t : Tm) : Str :=
  ascii "Date: " ++ (dayName t.wday ++ (ascii ", " ++ (twoDigits t.mday ++ (ascii " " ++ (monthName t.mon ++ (ascii " " ++
    (dec (toInt t.year + 1900) ++ (ascii " " ++ (twoDigits t.hour ++ (ascii ":" ++ (twoDigits t.min ++ (ascii ":" ++
      (twoDigits t.sec ++ ascii " +0000")))))))))))))

/-- `strftime` into a buffer of zeros: nothing is kept of a text that does not fit. -/
def strftime (max : Nat) (text : Str) : Str := if text.length < max then text else []

/-! ## `sendmail` -/

structure Mailman where
  to_        : List Str
  from_      : Str
  smtpserver : Str
  username   : Str
  password   : Str

/-- What stands in the `try`. -/
def Mailman.attempt (m : Mailman) (now : Tm) (subject body : Str) : Session Int := do
  let socket ← connectTcp m.smtpserver
  if socket < 0 then return socket
  let msg ← recvTcp socket 1024
  matchReply VALIDBANNER msg
  let _ ← sendTcp socket HELO_MSG
  let msg ← recvTcp socket 1024
  matchReply VALIDMAIL msg
  let _ ← sendTcp socket (snprintf 127 (LINE.print (ascii "AUTH LOGIN")))
  let msg ← recvTcp socket 1024
  matchReply VALIDAUTH msg
  let _ ← sendTcp socket (snprintf 127 (LINE.print m.username))
  let msg ← recvTcp socket 1024
  matchReply VALIDAUTH msg
  let _ ← sendTcp socket (snprintf 127 (LINE.print m.password))
  let msg ← recvTcp socket 1024
  matchReply AUTHOK msg
  let _ ← sendTcp socket (snprintf 127 (MAIL_FROM.print m.from_))
  let msg ← recvTcp socket 1024
  matchReply VALIDMAIL msg
  m.to_.forM (fun it => do
    let _ ← sendTcp socket (snprintf 127 (RCPT_TO.print it))
    let msg ← recvTcp socket 1024
    matchReply VALIDMAIL msg)
  let _ ← sendTcp socket DATA_MSG
  let msg ← recvTcp socket 1024
  matchReply VALIDDATA msg
  m.to_.forM (fun it => do
    let _ ← sendTcp socket (snprintf 127 (TO.print it)))
  let _ ← sendTcp socket (snprintf 127 (FROM.print m.from_))
  let _ ← sendTcp socket (strftime 127 (now.date ++ ascii "\r\n"))
  let _ ← sendTcp socket (snprintf 127 (SUBJECT.print subject))
  let _ ← sendTcp socket (snprintf 512 (BODY.print body))
  let _ ← sendTcp socket END_DATA
  let msg ← recvTcp socket 1024
  matchReply VALIDMAIL msg
  let _ ← sendTcp socket QUIT_MSG
  let _ ← recvTcp socket 1024
  close socket
  return 0

/-- The return code, the message the handler prints, and the link as it is left. -/
structure Outcome where
  rc    : Int
  error : Option Str
  link  : Link

def Mailman.sendmail (m : Mailman) (now : Tm) (subject body : Str) (l : Link) : Outcome :=
  match exec (m.attempt now subject body) l with
  | (.ok rc, l)          => ⟨rc, none, l⟩
  | (.error errormsg, l) => ⟨0, some errormsg, l⟩

def haveBeen : Level → Str
  | .changed => ascii " have been changed!!"
  | .created => ascii " have been created!!"
  | .deleted => ascii " have been deleted!!"

def getAlert (level : Level) (_dir name : Str) : Str := ascii "File " ++ (name ++ haveBeen level)

def mailSubject : Str := ascii "A Warning of File Integerity Monitor"

def mailBody (level : Level) (dir name : Str) : Str := ascii "Attention please!\r\n" ++ getAlert level dir name

/-- `send_mail`; the second component tells whether a warning is logged. -/
def Mailman.sendMail (m : Mailman) (now : Tm) (level : Level) (dir name : Str) (l : Link) : Outcome × Bool :=
  let out := m.sendmail now mailSubject (mailBody level dir name) l
  (out, decide (out.rc < 0))

/-! ## Runs of a session -/

variable {α β : Type}

theorem exec_bind_ok {x : Session α} {l l' : Link} {a : α} (h : exec x l = (.ok a, l')) (f : α → Session β) :
    exec (x >>= f) l = exec (f a) l' := by
  unfold exec at *
  simp only [ExceptT.run_bind, StateT.run_bind]
  rw [h]
  rfl

theorem exec_bind_error {x : Session α} {l l' : Link} {e : Str} (h : exec x l = (.error e, l')) (f : α → Session β) :
    exec (x >>= f) l = (.error e, l') := by
  unfold exec at *
  simp only [ExceptT.run_bind, StateT.run_bind]
  rw [h]
  rfl

/-- What `send` returns for each of the messages. -/
def results : List Int → List Str → List (Str × Int)
  | _, []       => []
  | rcs, m :: ms => (m, rcs.headD m.length) :: results rcs.tail ms

theorem results_append : ∀ (ms ms' : List Str) (rcs : List Int),
    results rcs (ms ++ ms') = results rcs ms ++ results (rcs.drop ms.length) ms'
  | [], ms', rcs => rfl
  | m :: ms, ms', rcs => by
    rw [List.cons_append, results, results, results_append ms ms' rcs.tail, List.length_cons, ← List.drop_one,
      List.drop_drop, Nat.add_comm 1]
    rfl

theorem map_fst_results : ∀ (ms : List Str) (rcs : List Int), (results rcs ms).map Prod.fst = ms
  | [], _ => rfl
  | m :: ms, rcs => by rw [results, List.map_cons, map_fst_results ms rcs.tail]

theorem bytes_results : ∀ (ms : List Str), (results [] ms).flatMap (fun m => m.1.take m.2.toNat) = ms.flatten
  | [] => rfl
  | m :: ms => by
    rw [results, List.flatMap_cons, List.tail_nil, bytes_results ms, List.flatten_cons]
    simp

/-- The link after the messages were handed over. -/
def Link.said (l : Link) (ms : List Str) : Link :=
  { l with sends := l.sends.drop ms.length, sent := l.sent ++ results l.sends ms }

def Link.heard (l : Link) : Link := { l with recvs := l.recvs.tail }

@[simp] theorem said_nil (l : Link) : l.said [] = l := by simp [Link.said, results]

theorem said_append (l : Link) (ms ms' : List Str) : (l.said ms).said ms' = l.said (ms ++ ms') := by
  simp [Link.said, results_append]

@[simp] theorem said_recvs (l : Link) (ms : List Str) : (l.said ms).recvs = l.recvs := rfl
@[simp] theorem heard_recvs (l : Link) : l.heard.recvs = l.recvs.tail := rfl

theorem heard_said (l : Link) (ms : List Str) : l.heard.said ms = (l.said ms).heard := rfl

/-- `sendTcp` where its result is not looked at. -/
def say (socket : Int) (msg : Str) : Session Unit := do let _ ← sendTcp socket msg

theorem exec_sendTcp (socket : Int) (msg : Str) (l : Link) :
    exec (sendTcp socket msg) l =
      (.ok (if l.sends.headD (cstr msg).length ≤ 0 then -1 else 0), l.said [cstr msg]) := by
  have h : l.said [cstr msg] =
      { l with sends := l.sends.tail, sent := l.sent ++ [(cstr msg, l.sends.headD (cstr msg).length)] } := by
    simp only [Link.said, results, List.length_singleton, List.drop_one]
  rw [h]
  rfl

theorem exec_say (socket : Int) {msg : Str} (h : 0 ∉ msg) (l : Link) :
    exec (say socket msg) l = (.ok (), l.said [msg]) := by
  have hs := exec_sendTcp socket msg l
  rw [cstr_of_notMem h] at hs
  exact exec_bind_ok hs _

theorem exec_sayAll (socket : Int) : ∀ {ms : List Str} (l : Link), (∀ msg ∈ ms, 0 ∉ msg) →
    exec (ms.forM (say socket)) l = (.ok (), l.said ms)
  | [], l, _ => by rw [said_nil]; rfl
  | msg :: ms, l, h => by
    have hs := exec_say socket (h msg List.mem_cons_self) l
    rw [List.forM_eq_forM, List.forM_cons, exec_bind_ok hs, ← List.forM_eq_forM,
      exec_sayAll socket _ (fun m hm => h m (List.mem_cons_of_mem msg hm)), said_append]
    rfl

/-! ### A reply -/

/-- A code as the replies begin with it. -/
structure IsCode (token : Str) : Prop where
  length : token.length = 3
  noNul  : 0 ∉ token

def fits (token reply : Str) : Bool := token.isPrefixOf reply

theorem matchReply_some {token : Str} (h : IsCode token) (str : Str) :
    ∃ e, matchReply token (some str) = if fits token str then pure () else throw e := by
  refine ⟨mismatch token str, ?_⟩
  have hfits : fits token str = true ↔ token.length ≤ (cstr str).length ∧ (cstr str).take token.length = token := by
    rw [fits, List.isPrefixOf_iff_prefix]
    constructor
    · rintro ⟨rest, rfl⟩
      have hc : cstr (token ++ rest) = token ++ cstr rest :=
        List.takeWhile_append_of_pos (fun c hc => decide_eq_true (ne_of_mem_of_not_mem hc h.noNul))
      rw [hc]
      exact ⟨by simp, List.take_left⟩
    · rintro ⟨-, htake⟩
      rw [← htake]
      exact (List.take_prefix _ _).trans (List.takeWhile_prefix _)
  simp only [matchReply]
  by_cases hlen : token.length > (cstr str).length
  · rw [if_pos hlen, if_neg (fun hf => by have := (hfits.1 hf).1; omega)]
  · rw [if_neg hlen]
    by_cases htake : (cstr str).take token.length = token
    · rw [if_pos htake, if_pos (hfits.2 ⟨by omega, htake⟩)]
    · rw [if_neg htake, if_neg (fun hf => htake (hfits.1 hf).2)]

/-- A code is looked for in the first three bytes. -/
theorem fits_take {token : Str} (h : IsCode token) (reply : Str) {n : Nat} (hn : 3 ≤ n) :
    fits token (reply.take n) = fits token reply := by
  have hiff : token <+: reply.take n ↔ token <+: reply := by
    rw [List.prefix_take_iff, h.length]
    exact ⟨fun hp => hp.1, fun hp => ⟨hp, hn⟩⟩
  rw [Bool.eq_iff_iff, fits, fits, List.isPrefixOf_iff_prefix, List.isPrefixOf_iff_prefix, hiff]

/-- The reply to a turn. -/
def hear (socket : Int) (token : Str) : Session Unit := do
  let msg ← recvTcp socket 1024
  matchReply token msg

/-- **What a turn does with the first of the chunks.** -/
theorem exec_hear (socket : Int) {token : Str} (h : IsCode token) (l : Link) :
    (∃ e, exec (hear socket token) l = (.error e, l.heard) ∧ ∀ r rs, l.recvs = r :: rs → fits token r = false) ∨
    (∃ r rs, l.recvs = r :: rs ∧ fits token r = true ∧ exec (hear socket token) l = (.ok (), l.heard)) := by
  have hrecv : exec (recvTcp socket 1024) l =
      (.ok (if (l.recvs.headD []).take 1023 = [] then none else some ((l.recvs.headD []).take 1023)), l.heard) := rfl
  have hexec := exec_bind_ok hrecv (matchReply token)
  cases hr : l.recvs with
  | nil =>
    rw [hr] at hexec
    exact Or.inl ⟨_, hexec, fun r rs he => by cases he⟩
  | cons r rs =>
    rw [hr, List.headD_cons] at hexec
    by_cases hnil : r.take 1023 = []
    · rw [if_pos hnil] at hexec
      refine Or.inl ⟨_, hexec, fun r' rs' he => ?_⟩
      cases he
      rw [← fits_take h r (by decide : 3 ≤ 1023), hnil]
      have hlen := h.length
      cases token with
      | nil => cases hlen
      | cons c token => rfl
    · rw [if_neg hnil] at hexec
      obtain ⟨e, he⟩ := matchReply_some h (r.take 1023)
      rw [he, fits_take h r (by decide)] at hexec
      cases hf : fits token r with
      | false =>
        rw [hf] at hexec
        refine Or.inl ⟨e, hexec, fun r' rs' he => ?_⟩
        cases he
        exact hf
      | true =>
        rw [hf] at hexec
        exact Or.inr ⟨r, rs, rfl, hf, hexec⟩

/-! ## The script -/

/-- One turn: the messages, then the reply. -/
def exchange (socket : Int) (t : Dialogue.Turn Str Str) : Session Unit := do
  t.words.forM (say socket)
  hear socket t.expects

/-- The header, the body and the end of the mail. -/
def Mailman.mail (m : Mailman) (now : Tm) (subject body : Str) : List Str :=
  m.to_.map (fun it => snprintf 127 (TO.print it)) ++
    [snprintf 127 (FROM.print m.from_), strftime 127 (now.date ++ ascii "\r\n"), snprintf 127 (SUBJECT.print subject),
      snprintf 512 (BODY.print body), END_DATA]

/-- The turns of `sendmail`, up to the reply to the mail. -/
def Mailman.script (m : Mailman) (now : Tm) (subject body : Str) : List (Dialogue.Turn Str Str) :=
  [⟨[], VALIDBANNER⟩, ⟨[HELO_MSG], VALIDMAIL⟩, ⟨[snprintf 127 (LINE.print (ascii "AUTH LOGIN"))], VALIDAUTH⟩,
    ⟨[snprintf 127 (LINE.print m.username)], VALIDAUTH⟩, ⟨[snprintf 127 (LINE.print m.password)], AUTHOK⟩,
    ⟨[snprintf 127 (MAIL_FROM.print m.from_)], VALIDMAIL⟩] ++
  (m.to_.map (fun it => ⟨[snprintf 127 (RCPT_TO.print it)], VALIDMAIL⟩) ++
  [⟨[DATA_MSG], VALIDDATA⟩, ⟨m.mail now subject body, VALIDMAIL⟩])

/-- The whole dialogue is got through with these chunks. -/
def Mailman.ends (m : Mailman) (now : Tm) (subject body : Str) (recvs : List Str) : Bool :=
  (Dialogue.run fits (m.script now subject body) recvs).2

/-- What is said with these chunks. -/
def Mailman.said (m : Mailman) (now : Tm) (subject body : Str) (recvs : List Str) : List Str :=
  (Dialogue.run fits (m.script now subject body) recvs).1 ++ if m.ends now subject body recvs then [QUIT_MSG] else []

/-- `attempt` with its turns read off the script. -/
theorem attempt_eq (m : Mailman) (now : Tm) (subject body : Str) :
    m.attempt now subject body = (do
      let socket ← connectTcp m.smtpserver
      if socket < 0 then return socket
      (m.script now subject body).forM (exchange socket)
      say socket QUIT_MSG
      let _ ← recvTcp socket 1024
      close socket
      return 0) := by
  unfold Mailman.attempt
  congr 1
  funext socket
  split
  · rfl
  · simp [Mailman.script, Mailman.mail, exchange, hear, say]

theorem notMem_around {c : UInt8} {a s b : Str} (ha : c ∉ a) (hs : c ∉ s) (hb : c ∉ b) : c ∉ a ++ (s ++ b) := by
  rw [List.mem_append, List.mem_append]
  rintro (h | h | h)
  · exact ha h
  · exact hs h
  · exact hb h

theorem print_noNul {f : Format} (hb : 0 ∉ f.before) (ha : 0 ∉ f.after) (size : Nat) (s : Str) :
    0 ∉ snprintf size (f.print s) := fun h =>
  notMem_around hb (zero_notMem_cstr s) ha (List.mem_of_mem_take h)

/-- No control byte. -/
def Printable (s : Str) : Prop := ∀ c ∈ s, 32 ≤ c

instance (s : Str) : Decidable (Printable s) := inferInstanceAs (Decidable (∀ c ∈ s, 32 ≤ c))

theorem Printable.append {s t : Str} (hs : Printable s) (ht : Printable t) : Printable (s ++ t) := fun c hc =>
  (List.mem_append.1 hc).elim (hs c) (ht c)

theorem printable_dec (i : Int) : Printable (dec i) := fun c hc => by
  have hdec := mem_dec i c hc
  rw [isDecByte, Bool.or_eq_true, beq_iff_eq, Bool.and_eq_true, decide_eq_true_eq] at hdec
  rcases hdec with rfl | h
  · decide
  · exact Nat.le_trans (by decide) h.1

theorem dayName_spec (wday : Fin 7) : Printable (dayName wday) ∧ (dayName wday).length = 3 := by
  have hall : ∀ name ∈ dayNames, Printable (ascii name) ∧ (ascii name).length = 3 := by decide +kernel
  exact hall _ (List.get_mem dayNames wday)

theorem monthName_spec (mon : Fin 12) : Printable (monthName mon) ∧ (monthName mon).length = 3 := by
  have hall : ∀ name ∈ monthNames, Printable (ascii name) ∧ (ascii name).length = 3 := by decide +kernel
  exact hall _ (List.get_mem monthNames mon)

theorem printable_twoDigits {n : Nat} (h : n < 100) : Printable (twoDigits n) := by
  have hdigit : ∀ k < 10, 32 ≤ UInt8.ofNat (48 + k) := by decide
  intro c hc
  rcases List.mem_cons.1 hc with rfl | hc
  · exact hdigit _ (by omega)
  · rw [List.mem_singleton.1 hc]
    exact hdigit _ (Nat.mod_lt _ (by decide))

theorem date_printable (t : Tm) : Printable t.date := by
  have hdate : Printable (ascii "Date: ") := by decide +kernel
  have hcomma : Printable (ascii ", ") := by decide +kernel
  have hblank : Printable (ascii " ") := by decide +kernel
  have hcolon : Printable (ascii ":") := by decide +kernel
  have hzone : Printable (ascii " +0000") := by decide +kernel
  have hmday : Printable (twoDigits t.mday) := printable_twoDigits (by omega)
  have hhour : Printable (twoDigits t.hour) := printable_twoDigits (by omega)
  have hmin : Printable (twoDigits t.min) := printable_twoDigits (by omega)
  have hsec : Printable (twoDigits t.sec) := printable_twoDigits (by omega)
  have htime := hhour.append (hcolon.append (hmin.append (hcolon.append (hsec.append hzone))))
  have hyear := (printable_dec (toInt t.year + 1900)).append (hblank.append htime)
  exact hdate.append ((dayName_spec t.wday).1.append (hcomma.append (hmday.append (hblank.append
    ((monthName_spec t.mon).1.append (hblank.append hyear))))))

theorem date_length_le (t : Tm) : t.date.length ≤ 44 := by
  have hday := (dayName_spec t.wday).2
  have hmon := (monthName_spec t.mon).2
  have hyear : (dec (toInt t.year + 1900)).length ≤ 11 := by
    have hrange := toInt_range t.year
    have hlt : (toInt t.year + 1900).natAbs < 10 ^ 10 := by omega
    have hle := decNat_length_le _ 10 (by decide) hlt
    unfold dec
    split
    · rw [List.length_cons]; omega
    · omega
  have h1 : (ascii "Date: ").length = 6 := rfl
  have h2 : (ascii ", ").length = 2 := rfl
  have h3 : (ascii " ").length = 1 := rfl
  have h4 : (ascii ":").length = 1 := rfl
  have h5 : (ascii " +0000").length = 6 := rfl
  simp only [Tm.date, List.length_append, hday, hmon, twoDigits, List.length_cons, List.length_nil, h1, h2, h3, h4, h5]
  omega

/-- The date always fits. -/
theorem strftime_date (t : Tm) : strftime 127 (t.date ++ ascii "\r\n") = t.date ++ ascii "\r\n" := by
  have hle := date_length_le t
  have hcrlf : (ascii "\r\n").length = 2 := rfl
  rw [strftime, if_pos (by rw [List.length_append]; omega)]

theorem mail_noNul (m : Mailman) (now : Tm) (subject body : Str) : ∀ msg ∈ m.mail now subject body, 0 ∉ msg := by
  intro msg hmsg
  simp only [Mailman.mail, List.mem_append, List.mem_map, List.mem_cons, List.not_mem_nil, or_false] at hmsg
  rcases hmsg with ⟨it, -, rfl⟩ | rfl | rfl | rfl | rfl | rfl
  · exact print_noNul (by decide) (by decide) _ _
  · exact print_noNul (by decide) (by decide) _ _
  · rw [strftime_date, List.mem_append]
    rintro (h | h)
    · exact absurd (date_printable now 0 h) (by decide)
    · exact absurd h (by decide)
  · exact print_noNul (by decide) (by decide) _ _
  · exact print_noNul (by decide) (by decide) _ _
  · decide

/-- What every turn of the script is like. -/
theorem script_turns (m : Mailman) (now : Tm) (subject body : Str) :
    ∀ t ∈ m.script now subject body, (∀ msg ∈ t.words, 0 ∉ msg) ∧ IsCode t.expects := by
  have hone : ∀ (msg : Str), 0 ∉ msg → ∀ msg' ∈ [msg], 0 ∉ msg' := fun msg h msg' hm => List.mem_singleton.1 hm ▸ h
  have hprint : ∀ (f : Format) (s : Str), 0 ∉ f.before → 0 ∉ f.after → ∀ msg ∈ [snprintf 127 (f.print s)], 0 ∉ msg :=
    fun f s hb ha => hone _ (print_noNul hb ha 127 s)
  have hmail : IsCode VALIDMAIL := ⟨rfl, by decide⟩
  have hauth : IsCode VALIDAUTH := ⟨rfl, by decide⟩
  have hok : IsCode AUTHOK := ⟨rfl, by decide⟩
  intro t ht
  simp only [Mailman.script, List.mem_append, List.mem_map, List.mem_cons, List.not_mem_nil, or_false] at ht
  rcases ht with (rfl | rfl | rfl | rfl | rfl | rfl) | ⟨it, -, rfl⟩ | rfl | rfl
  · exact ⟨fun msg h => absurd h List.not_mem_nil, ⟨rfl, by decide⟩⟩
  · exact ⟨hone _ (by decide), hmail⟩
  · exact ⟨hprint LINE _ (by decide) (by decide), hauth⟩
  · exact ⟨hprint LINE _ (by decide) (by decide), hauth⟩
  · exact ⟨hprint LINE _ (by decide) (by decide), hok⟩
  · exact ⟨hprint MAIL_FROM _ (by decide) (by decide), hmail⟩
  · exact ⟨hprint RCPT_TO it (by decide) (by decide), hmail⟩
  · exact ⟨hone _ (by decide), ⟨rfl, by decide⟩⟩
  · exact ⟨mail_noNul m now subject body, hmail⟩

/-- **The turns of a session are the run of their script.** -/
theorem exec_script (socket : Int) : ∀ (script : List (Dialogue.Turn Str Str)) (l : Link),
    (∀ t ∈ script, (∀ msg ∈ t.words, 0 ∉ msg) ∧ IsCode t.expects) → ∃ rs r, exec (script.forM (exchange socket)) l =
        (r, { l.said (Dialogue.run fits script l.recvs).1 with recvs := rs }) ∧
      r.isOk = (Dialogue.run fits script l.recvs).2
  | [], l, _ => ⟨l.recvs, .ok (), by rw [Dialogue.run, said_nil]; rfl, rfl⟩
  | t :: ts, l, h => by
    obtain ⟨hwords, hcode⟩ := h t List.mem_cons_self
    have hsaid := exec_sayAll socket l hwords
    obtain ⟨e, hhear, hno⟩ | ⟨r, rs, hr, hfits, hhear⟩ := exec_hear socket hcode (l.said t.words)
    · have hrun : Dialogue.run fits (t :: ts) l.recvs = (t.words, false) := by
        cases hr : l.recvs with
        | nil => rfl
        | cons r rs => exact Dialogue.run_of_not_fits fits (hno r rs hr) ts rs
      refine ⟨l.recvs.tail, .error e, ?_, by rw [hrun]; rfl⟩
      rw [List.forM_eq_forM, List.forM_cons, hrun]
      have hstep : exec (exchange socket t) l = (.error e, (l.said t.words).heard) := by
        unfold exchange
        rw [exec_bind_ok hsaid, hhear]
      exact exec_bind_error hstep _
    · have hr : l.recvs = r :: rs := hr
      have hstep : exec (exchange socket t) l = (.ok (), (l.said t.words).heard) := by
        unfold exchange
        rw [exec_bind_ok hsaid, hhear]
      obtain ⟨rs', res, hrest, hok⟩ :=
        exec_script socket ts (l.said t.words).heard (fun u hu => h u (List.mem_cons_of_mem t hu))
      have htail : (l.said t.words).heard.recvs = rs := by rw [heard_recvs, said_recvs, hr]; rfl
      rw [htail] at hrest hok
      refine ⟨rs', res, ?_, by rw [hr, Dialogue.run_of_fits fits hfits]; exact hok⟩
      rw [List.forM_eq_forM, List.forM_cons, exec_bind_ok hstep, ← List.forM_eq_forM, hrest, hr,
        Dialogue.run_of_fits fits hfits, heard_said, said_append]
      rfl

/-- The connection is made. -/
def Mailman.Connects (m : Mailman) (net : Network) : Prop := cstr m.smtpserver ≠ [] ∧ 0 ≤ net.socket ∧ 0 ≤ net.connect

theorem exec_connectTcp {m : Mailman} {l : Link} (h : m.Connects l.toNetwork) :
    exec (connectTcp m.smtpserver) l = (.ok l.socket, { l with fds := l.socket :: l.fds }) := by
  obtain ⟨hip, hsocket, hconnect⟩ := h
  have hs : ¬ l.socket < 0 := by omega
  have hc : ¬ l.connect < 0 := by omega
  have hget : exec get l = (.ok l, l) := rfl
  have hset : exec (set { l with fds := l.socket :: l.fds }) l = (.ok (), { l with fds := l.socket :: l.fds }) := rfl
  rw [connectTcp, exec_bind_ok hget, if_neg hs, exec_bind_ok hset, if_neg hip, if_neg hc]
  rfl

theorem exec_connectTcp_fails {m : Mailman} {l : Link} (h : ¬ m.Connects l.toNetwork) :
    exec (connectTcp m.smtpserver) l =
      (.ok (-1), if l.socket < 0 then l else { l with fds := l.socket :: l.fds }) := by
  have hget : exec get l = (.ok l, l) := rfl
  have hset : exec (set { l with fds := l.socket :: l.fds }) l = (.ok (), { l with fds := l.socket :: l.fds }) := rfl
  rw [connectTcp, exec_bind_ok hget]
  by_cases hs : l.socket < 0
  · rw [if_pos hs, if_pos hs]
    rfl
  · rw [if_neg hs, if_neg hs, exec_bind_ok hset]
    by_cases hip : cstr m.smtpserver = []
    · rw [if_pos hip]
      rfl
    · have hc : l.connect < 0 := by
        by_contra hc
        exact h ⟨hip, by omega, by omega⟩
      rw [if_neg hip, if_pos hc]
      rfl

theorem sendmail_fails {m : Mailman} {l : Link} (h : ¬ m.Connects l.toNetwork) (now : Tm) (subject body : Str) :
    m.sendmail now subject body l = ⟨-1, none, if l.socket < 0 then l else { l with fds := l.socket :: l.fds }⟩ := by
  have hexec : exec (m.attempt now subject body) l =
      (.ok (-1), if l.socket < 0 then l else { l with fds := l.socket :: l.fds }) := by
    rw [attempt_eq, exec_bind_ok (exec_connectTcp_fails h), if_pos (by decide)]
    rfl
  rw [Mailman.sendmail, hexec]

/-- **A dialogue is the run of its script on the chunks.**  When it is broken off the socket stays open. -/
theorem sendmail_spec {m : Mailman} {l : Link} (h : m.Connects l.toNetwork) (now : Tm) (subject body : Str) :
    ∃ rs error, m.sendmail now subject body l = ⟨0, error, { l with
        sends := l.sends.drop (m.said now subject body l.recvs).length
        recvs := rs
        sent  := l.sent ++ results l.sends (m.said now subject body l.recvs)
        fds   := if m.ends now subject body l.recvs then l.fds else l.socket :: l.fds }⟩ ∧
      error.isNone = m.ends now subject body l.recvs := by
  have hs : ¬ l.socket < 0 := by have := h.2.1; omega
  obtain ⟨rs, r, hexec, hok⟩ := exec_script l.socket (m.script now subject body) { l with fds := l.socket :: l.fds }
    (script_turns m now subject body)
  have hok : r.isOk = m.ends now subject body l.recvs := hok
  cases r with
  | error e =>
    have hends : m.ends now subject body l.recvs = false := hok.symm
    have hsaid : m.said now subject body l.recvs = (Dialogue.run fits (m.script now subject body) l.recvs).1 := by
      rw [Mailman.said, hends, if_neg Bool.false_ne_true, List.append_nil]
    have hrun : exec (m.attempt now subject body) l = (.error e, { l with
        sends := l.sends.drop (m.said now subject body l.recvs).length
        recvs := rs
        sent  := l.sent ++ results l.sends (m.said now subject body l.recvs)
        fds   := l.socket :: l.fds }) := by
      rw [attempt_eq, exec_bind_ok (exec_connectTcp h), if_neg hs, exec_bind_error hexec, hsaid]
      rfl
    refine ⟨rs, some e, ?_, hends.symm⟩
    rw [Mailman.sendmail, hrun, hends, if_neg Bool.false_ne_true]
  | ok u =>
    have hends : m.ends now subject body l.recvs = true := hok.symm
    have hsaid : m.said now subject body l.recvs =
        (Dialogue.run fits (m.script now subject body) l.recvs).1 ++ [QUIT_MSG] := by
      rw [Mailman.said, hends, if_pos rfl]
    have hquit : 0 ∉ QUIT_MSG := by decide
    have hrun : exec (m.attempt now subject body) l = (.ok 0, { l with
        sends := l.sends.drop (m.said now subject body l.recvs).length
        recvs := rs.tail
        sent  := l.sent ++ results l.sends (m.said now subject body l.recvs)
        fds   := l.fds }) := by
      rw [attempt_eq, exec_bind_ok (exec_connectTcp h), if_neg hs, exec_bind_ok hexec,
        exec_bind_ok (exec_say l.socket hquit _)]
      have hlast := said_append { l with fds := l.socket :: l.fds, recvs := rs }
        (Dialogue.run fits (m.script now subject body) l.recvs).1 [QUIT_MSG]
      rw [← hsaid] at hlast
      have hclose : (l.socket :: l.fds).erase l.socket = l.fds := List.erase_cons_head _ _
      show exec (do let _ ← recvTcp l.socket 1024; close l.socket; return 0)
        ((Link.said { l with fds := l.socket :: l.fds, recvs := rs }
          (Dialogue.run fits (m.script now subject body) l.recvs).1).said [QUIT_MSG]) = _
      rw [hlast]
      conv_rhs => rw [← hclose]
      rfl
    refine ⟨rs.tail, none, ?_, hends.symm⟩
    rw [Mailman.sendmail, hrun, hends, if_pos rfl]

/-! ## What is seen of a dialogue -/

/-- The codes in the order in which they are expected. -/
def Mailman.codes (m : Mailman) : List Str :=
  [VALIDBANNER, VALIDMAIL, VALIDAUTH, VALIDAUTH, AUTHOK, VALIDMAIL] ++ (m.to_.map (fun _ => VALIDMAIL) ++
    [VALIDDATA, VALIDMAIL])

/-- How many of the first chunks begin with the code expected in their place. -/
def Mailman.answered (m : Mailman) (chunks : List Str) : Nat := Dialogue.passed fits m.codes chunks

/-- What was sent, and how it ended: the return code, whether the handler was entered, and the descriptors left open. -/
def Outcome.observed (out : Outcome) : List Str × Int × Bool × List Int :=
  (out.link.commands, out.rc, out.error.isSome, out.link.fds)

theorem script_codes (m : Mailman) (now : Tm) (subject body : Str) :
    (m.script now subject body).map Dialogue.Turn.expects = m.codes := by
  simp [Mailman.script, Mailman.codes, Function.comp_def]

theorem script_words (m : Mailman) (now : Tm) (subject body : Str) :
    ∀ t ∈ (m.script now subject body).tail, t.words ≠ [] := by
  intro t ht
  simp only [Mailman.script, List.cons_append, List.nil_append, List.tail_cons, List.mem_cons, List.mem_append,
    List.mem_map, List.not_mem_nil, or_false] at ht
  rcases ht with rfl | rfl | rfl | rfl | rfl | ⟨it, -, rfl⟩ | rfl | rfl
  · exact List.cons_ne_nil _ _
  · exact List.cons_ne_nil _ _
  · exact List.cons_ne_nil _ _
  · exact List.cons_ne_nil _ _
  · exact List.cons_ne_nil _ _
  · exact List.cons_ne_nil _ _
  · exact List.cons_ne_nil _ _
  · exact List.append_ne_nil_of_right_ne_nil _ (List.cons_ne_nil _ _)

theorem observed_of_connects {m : Mailman} {net : Network} (h : m.Connects net) (now : Tm) (subject body : Str) :
    (m.sendmail now subject body net.link).observed =
      (m.said now subject body net.recvs, 0, !m.ends now subject body net.recvs,
        if m.ends now subject body net.recvs then [] else [net.socket]) := by
  have h' : m.Connects net.link.toNetwork := h
  obtain ⟨rs, error, hout, herr⟩ := sendmail_spec h' now subject body
  have hcmd : ([] ++ results net.sends (m.said now subject body net.recvs)).map Prod.fst =
      m.said now subject body net.recvs := by rw [List.nil_append, map_fst_results]
  have herr : error.isSome = !m.ends now subject body net.recvs := by
    show _ = !m.ends now subject body net.link.recvs
    rw [← herr]
    cases error <;> rfl
  rw [hout]
  show (([] ++ results net.sends (m.said now subject body net.recvs)).map Prod.fst, (0 : Int), error.isSome, _) = _
  rw [hcmd, herr]
  rfl

theorem observed_of_fails {m : Mailman} {net : Network} (h : ¬ m.Connects net) (now : Tm) (subject body : Str) :
    (m.sendmail now subject body net.link).observed = ([], -1, false, if net.socket < 0 then [] else [net.socket]) := by
  have h' : ¬ m.Connects net.link.toNetwork := h
  rw [sendmail_fails h']
  by_cases hs : net.socket < 0
  · rw [if_pos hs, if_pos (show net.link.socket < 0 from hs)]
    rfl
  · rw [if_neg hs, if_neg (show ¬ net.link.socket < 0 from hs)]
    rfl

/-- **Two dialogues look the same exactly when as many chunks begin with the code expected in their place.** -/
theorem observed_eq_iff {m : Mailman} {net : Network} (h : m.Connects net) (now : Tm) (subject body : Str)
    (chunks chunks' : List Str) :
    (m.sendmail now subject body (Network.link { net with recvs := chunks })).observed =
        (m.sendmail now subject body (Network.link { net with recvs := chunks' })).observed ↔
      m.answered chunks = m.answered chunks' := by
  have h1 : m.Connects { net with recvs := chunks } := h
  have h2 : m.Connects { net with recvs := chunks' } := h
  have hrun := Dialogue.run_eq_iff fits (m.script now subject body) chunks chunks' (script_words m now subject body)
  rw [script_codes] at hrun
  rw [observed_of_connects h1, observed_of_connects h2, Mailman.answered, Mailman.answered, ← hrun]
  constructor
  · intro he
    injection he with hsaid he
    injection he with _ he
    injection he with hends _
    have hends : m.ends now subject body chunks = m.ends now subject body chunks' := Bool.not_inj hends
    have hsaid : m.said now subject body chunks = m.said now subject body chunks' := hsaid
    rw [Mailman.said, Mailman.said, hends] at hsaid
    exact Prod.ext (List.append_cancel_right hsaid) hends
  · intro he
    have hends : m.ends now subject body chunks = m.ends now subject body chunks' := congrArg Prod.snd he
    have hsaid : m.said now subject body chunks = m.said now subject body chunks' := by
      rw [Mailman.said, Mailman.said, hends, he]
    show (m.said now subject body chunks, (0 : Int), !m.ends now subject body chunks, _) = _
    simp only [hsaid, hends]

/-! ## The return code -/

/-- The mail is accepted: the connection is made, every `send` up to the end of the data takes something, and every reply
up to the last 250 begins with the code expected in its place. -/
def Mailman.Accepted (m : Mailman) (now : Tm) (subject body : Str) (net : Network) : Prop :=
  m.Connects net ∧
    (∀ r ∈ results net.sends ((m.script now subject body).flatMap Dialogue.Turn.words), 0 < r.2) ∧
    m.answered net.recvs = m.codes.length

/-- Only a connection that is not made gives a negative return code. -/
theorem sendmail_rc_nonneg_iff (m : Mailman) (now : Tm) (subject body : Str) (net : Network) :
    0 ≤ (m.sendmail now subject body net.link).rc ↔ m.Connects net := by
  by_cases h : m.Connects net
  · obtain ⟨rs, error, hout, -⟩ := sendmail_spec (l := net.link) h now subject body
    rw [hout]
    exact iff_of_true (Int.le_refl 0) h
  · rw [sendmail_fails (l := net.link) h]
    exact iff_of_false (show ¬ (0 : Int) ≤ -1 by decide) h

theorem reports_iff (m : Mailman) (now : Tm) (subject body : Str) (net : Network) :
    (0 ≤ (m.sendmail now subject body net.link).rc ↔ m.Accepted now subject body net) ↔
      (m.Connects net → m.Accepted now subject body net) := by
  rw [sendmail_rc_nonneg_iff]
  exact ⟨Iff.mp, fun h => ⟨h, And.left⟩⟩

/-- **The return code tells accepted mail exactly when no connection is made or the mail is accepted**, and so does the
warning of `send_mail`: a dialogue that is broken off after the connection counts as success. -/
theorem sendmail_reports_iff (m : Mailman) (now : Tm) (net : Network) :
    (∀ subject body, (0 ≤ (m.sendmail now subject body net.link).rc ↔ m.Accepted now subject body net) ↔
      (m.Connects net → m.Accepted now subject body net)) ∧
    ∀ level dir name,
      ((m.sendMail now level dir name net.link).2 = true ↔ ¬ m.Accepted now mailSubject (mailBody level dir name) net) ↔
        (m.Connects net → m.Accepted now mailSubject (mailBody level dir name) net) := by
  refine ⟨fun subject body => reports_iff m now subject body net, fun level dir name => ?_⟩
  rw [← reports_iff, Mailman.sendMail, decide_eq_true_eq, ← Int.not_le, not_iff_not]

/-- The server takes the connection and closes it. -/
def closedAtOnce : Network := ⟨3, 0, [], []⟩

theorem closedAtOnce_succeeds : ¬ ∀ (m : Mailman) (now : Tm) (subject body : Str) (net : Network),
    0 ≤ (m.sendmail now subject body net.link).rc ↔ m.Accepted now subject body net := fun h => by
  have hiff := h ⟨[ascii "a@b"], ascii "c@d", ascii "127.0.0.1", ascii "u", ascii "p"⟩ ⟨0, 0, 0, 1, 0, 70, 4⟩
    (ascii "s") (ascii "b") closedAtOnce
  rw [sendmail_rc_nonneg_iff] at hiff
  exact absurd (hiff.1 ⟨by decide, by decide, by decide⟩).2.2 (by decide +kernel)

end CheckRealtime
