import CheckRealtime.Pipeline
/-!
# Inotify — the bytes `watch()` reads

`watch()` reads a buffer of events, each a header of 16 bytes and then a name padded with NULs, and walks it with an index
that it takes from the data.  `watch_decodes`: over the encoding of any list of events the loop ends at the end of the
data and has called `analysis` for each event that has a name, in order.  `watch_refines` ties it to the labelled machine.
-/
namespace CheckRealtime

/-! ## `watch()` -/

def REALTIME_EVENT_SIZE : Nat := 16

def REALTIME_EVENT_BUFFER : Nat := 2048 * (REALTIME_EVENT_SIZE + 16)

/-- What the loop reads of a `struct inotify_event`: `wd`, `len`, and `name` as a C string. -/
structure EventView where
  wd   : Int
  len  : Nat
  name : Str

/-- The event at `&buf[i]`, when its header lies in the buffer. -/
def eventAt (buf : Str) (i : Int) : Option EventView :=
  if i < 0 ∨ (buf.length : Int) < i + REALTIME_EVENT_SIZE then none
  else
    let event := buf.drop i.toNat
    some ⟨toInt (leNat (event.take 4)), leNat ((event.drop 12).take 4), cstr (event.drop REALTIME_EVENT_SIZE)⟩

/-- `i += REALTIME_EVENT_SIZE + event->len`, a sum in `size_t` that goes back into an `int`. -/
def advance (i : Int) (len : Nat) : Int := toInt (i + REALTIME_EVENT_SIZE + len)

/-- The loop of `watch()`, from the index `i` on: the index it ends at and the calls of `analysis`.  It is undefined for a
header outside the buffer and for a descriptor that is no key of `_hash`. -/
def watchLoop (hash : Int → Option Str) (buf : Str) (len : Int) : Nat → Int → Option (Int × List AnalysisNode)
  | 0, _        => none
  | fuel + 1, i =>
    if len ≤ i then some (i, [])
    else match eventAt buf i with
      | none       => none
      | some event =>
        if event.len = 0 then watchLoop hash buf len fuel (advance i event.len)
        else match hash event.wd with
          | none         => none
          | some baseDir =>
            (watchLoop hash buf len fuel (advance i event.len)).map
              (fun r => (r.1, ⟨baseDir, finalName baseDir event.name⟩ :: r.2))

/-! ## Events and their encoding -/

/-- An event as the kernel writes it: the name, and NULs after it, one of them at least after a name. -/
structure Event where
  wd      : Int
  mask    : UInt32
  cookie  : UInt32
  name    : Str
  padding : Nat
  isInt   : -2 ^ 31 ≤ wd ∧ wd < 2 ^ 31
  nulFree : 0 ∉ name
  padded  : name ≠ [] → 0 < padding

def Event.len (e : Event) : Nat := e.name.length + e.padding

def Event.header (e : Event) : Str :=
  leBytes 4 (e.wd % 2 ^ 32).toNat ++ (leBytes 4 e.mask.toNat ++ (leBytes 4 e.cookie.toNat ++ leBytes 4 e.len))

def Event.encode (e : Event) : Str := e.header ++ (e.name ++ List.replicate e.padding 0)

def encodeAll (events : List Event) : Str := events.flatMap Event.encode

/-- The call of `analysis` an event asks for. -/
def Event.called (hash : Int → Option Str) (e : Event) : Option AnalysisNode :=
  if e.len = 0 then none else (hash e.wd).map (fun baseDir => ⟨baseDir, finalName baseDir e.name⟩)

theorem Event.header_length (e : Event) : e.header.length = REALTIME_EVENT_SIZE := by
  simp only [Event.header, List.length_append, leBytes_length, REALTIME_EVENT_SIZE]

theorem Event.encode_length (e : Event) : e.encode.length = REALTIME_EVENT_SIZE + e.len := by
  simp only [Event.encode, List.length_append, e.header_length, List.length_replicate, Event.len]

theorem toInt_emod {x : Int} (h : -2 ^ 31 ≤ x ∧ x < 2 ^ 31) : toInt ((x % 2 ^ 32).toNat : Int) = x := by
  rw [Int.toNat_of_nonneg (Int.emod_nonneg _ (by decide))]
  exact (Int.emod_bmod x (2 ^ 32)).trans (toInt_of_int h)

/-- The name is read up to its first NUL; without a name there is nothing that ends it, and it is not looked at. -/
theorem cstr_name (e : Event) (rest : Str) (h : e.len ≠ 0) : cstr (e.name ++ (List.replicate e.padding 0 ++ rest)) = e.name := by
  have hpad : e.padding ≠ 0 := fun h0 => by
    by_cases hname : e.name = []
    · exact h (by rw [Event.len, hname, h0]; rfl)
    · exact absurd (e.padded hname) (by omega)
  obtain ⟨k, hk⟩ := Nat.exists_eq_succ_of_ne_zero hpad
  have hpos : ∀ c ∈ e.name, decide (c ≠ 0) = true := fun c hc => decide_eq_true (fun h0 => e.nulFree (h0 ▸ hc))
  rw [hk, List.replicate_succ, cstr, List.takeWhile_append_of_pos hpos, List.cons_append,
    List.takeWhile_cons_of_neg (by simp), List.append_nil]

/-- **Reading an event back**, whatever stands before and after it in the buffer. -/
theorem eventAt_encode (e : Event) (before rest : Str) (hlen : e.len < 2 ^ 32) : ∃ name,
    eventAt (before ++ (e.encode ++ rest)) before.length = some ⟨e.wd, e.len, name⟩ ∧ (e.len ≠ 0 → name = e.name) := by
  refine ⟨cstr (e.name ++ (List.replicate e.padding 0 ++ rest)), ?_, cstr_name e rest⟩
  have hin : ¬ ((before.length : Int) < 0 ∨
      ((before ++ (e.encode ++ rest)).length : Int) < before.length + REALTIME_EVENT_SIZE) := by
    simp only [List.length_append, e.encode_length]
    omega
  have hdrop : (before ++ (e.encode ++ rest)).drop (before.length : Int).toNat = e.encode ++ rest := List.drop_left
  have hwd : (e.encode ++ rest).take 4 = leBytes 4 (e.wd % 2 ^ 32).toNat := by
    simp only [Event.encode, Event.header, List.append_assoc]
    exact List.take_left' (leBytes_length 4 _)
  have hskip : (e.encode ++ rest).drop 12 = leBytes 4 e.len ++ (e.name ++ (List.replicate e.padding 0 ++ rest)) := by
    simp only [Event.encode, Event.header, List.append_assoc]
    rw [← List.append_assoc (leBytes 4 _), ← List.append_assoc (leBytes 4 _ ++ leBytes 4 _)]
    exact List.drop_left' (by simp only [List.length_append, leBytes_length])
  have hname : (e.encode ++ rest).drop REALTIME_EVENT_SIZE = e.name ++ (List.replicate e.padding 0 ++ rest) := by
    simp only [Event.encode, List.append_assoc]
    exact List.drop_left' e.header_length
  have hwdRange : (e.wd % 2 ^ 32).toNat < 256 ^ 4 := by omega
  rw [eventAt, if_neg hin, hdrop]
  simp only [hwd, hskip, hname, List.take_left' (leBytes_length 4 _), leNat_leBytes_of_lt 4 _ hwdRange,
    leNat_leBytes_of_lt 4 _ hlen, toInt_emod e.isInt]

/-! ## The loop -/

/-- **One turn of the loop** at the boundary before an event takes it to the boundary after. -/
theorem watchLoop_event (hash : Int → Option Str) (e : Event) (before rest : Str) (len : Int) (fuel : Nat)
    (hin : (before ++ e.encode).length ≤ REALTIME_EVENT_BUFFER) (hlen : ((before ++ e.encode).length : Int) ≤ len)
    (hkey : (hash e.wd).isSome = true) :
    watchLoop hash (before ++ (e.encode ++ rest)) len (fuel + 1) before.length =
      (watchLoop hash (before ++ (e.encode ++ rest)) len fuel (before ++ e.encode).length).map
        (fun r => (r.1, (e.called hash).toList ++ r.2)) := by
  have hlens : (before ++ e.encode).length = before.length + (16 + e.len) := by
    rw [List.length_append, e.encode_length, REALTIME_EVENT_SIZE]
  have hbuffer : REALTIME_EVENT_BUFFER = 65536 := rfl
  obtain ⟨name, hevent, hname⟩ := eventAt_encode e before rest (by omega)
  have hadvance : advance before.length e.len = ((before ++ e.encode).length : Int) := by
    rw [advance, toInt_of_int (by rw [REALTIME_EVENT_SIZE]; omega), hlens, REALTIME_EVENT_SIZE]
    omega
  rw [watchLoop, if_neg (by omega), hevent]
  simp only [hadvance]
  by_cases h0 : e.len = 0
  · rw [if_pos h0, Event.called, if_pos h0]
    simp
  · obtain ⟨baseDir, hbase⟩ := Option.isSome_iff_exists.1 hkey
    rw [if_neg h0, hbase, Event.called, if_neg h0, hbase, hname h0]
    rfl

/-- From the boundary before an event on, the loop goes from event to event. -/
theorem watchLoop_encode (hash : Int → Option Str) (rest : Str) : ∀ (events : List Event) (before : Str) (fuel : Nat),
    (before ++ encodeAll events).length ≤ REALTIME_EVENT_BUFFER → (∀ e ∈ events, (hash e.wd).isSome = true) →
      events.length < fuel →
        watchLoop hash (before ++ (encodeAll events ++ rest)) (before ++ encodeAll events).length fuel before.length =
          some (((before ++ encodeAll events).length : Int), events.filterMap (Event.called hash))
  | _, _, 0, _, _, hf => absurd hf (Nat.not_lt_zero _)
  | [], before, fuel + 1, _, _, _ => by
    have hnil : before ++ encodeAll [] = before := List.append_nil before
    rw [watchLoop, hnil, if_pos (Int.le_refl _)]
    rfl
  | e :: events, before, fuel + 1, hfit, hkeys, hf => by
    have hcons : encodeAll (e :: events) = e.encode ++ encodeAll events := List.flatMap_cons
    have hdata : before ++ encodeAll (e :: events) = before ++ e.encode ++ encodeAll events := by
      rw [hcons, List.append_assoc]
    have hbuf : before ++ (encodeAll (e :: events) ++ rest) = before ++ (e.encode ++ (encodeAll events ++ rest)) := by
      rw [hcons, List.append_assoc]
    have hle : (before ++ e.encode).length ≤ (before ++ e.encode ++ encodeAll events).length := by
      simp only [List.length_append]
      omega
    rw [hdata] at hfit
    have ih := watchLoop_encode hash rest events (before ++ e.encode) fuel hfit
      (fun x hx => hkeys x (List.mem_cons_of_mem e hx)) (Nat.lt_of_succ_lt_succ hf)
    rw [hdata, hbuf, watchLoop_event hash e before (encodeAll events ++ rest) _ fuel (Nat.le_trans hle hfit)
      (by exact_mod_cast hle) (hkeys e List.mem_cons_self), ← List.append_assoc, ih, List.filterMap_cons]
    cases e.called hash with
    | none => rfl
    | some n => rfl

/-- **The loop of `watch()` undoes the encoding**: it ends at the end of the data, and has called `analysis` once for each
event with a name, in order, whatever else is in the buffer. -/
theorem watch_decodes (hash : Int → Option Str) (events : List Event) (rest : Str)
    (hfit : (encodeAll events).length ≤ REALTIME_EVENT_BUFFER) (hkeys : ∀ e ∈ events, (hash e.wd).isSome = true) :
    ∃ least, ∀ fuel, least ≤ fuel →
      watchLoop hash (encodeAll events ++ rest) (encodeAll events).length fuel 0 =
        some (((encodeAll events).length : Int), events.filterMap (Event.called hash)) :=
  ⟨events.length + 1, fun fuel hf => watchLoop_encode hash rest events [] fuel hfit hkeys hf⟩

/-- The directory goes away, and a file in it changes. -/
def selfAndFile : List Event :=
  [⟨1, 0x400, 0, [], 0, by decide, by decide, fun h => absurd rfl h⟩,
    ⟨1, 0x2, 0, ascii "f", 15, by decide, by decide, fun _ => by decide⟩]

theorem selfAndFile_decodes : ∃ least, ∀ fuel, least ≤ fuel →
    watchLoop (fun wd => if wd = 1 then some (ascii "/w") else none) (encodeAll selfAndFile ++ ascii "rest")
      (encodeAll selfAndFile).length fuel 0 =
        some (((encodeAll selfAndFile).length : Int),
          selfAndFile.filterMap (Event.called (fun wd => if wd = 1 then some (ascii "/w") else none))) :=
  watch_decodes _ selfAndFile (ascii "rest") (by decide) (by decide)

/-- An event of the labelled machine, in which an event without a name is one with `len` 0. -/
def Event.seen (e : Event) : InotifyEvent := ⟨e.wd.toNat, e.name⟩

/-- **The calls over the bytes are those of the machine's `watch`.** -/
theorem watch_refines (hash : Nat → Option Str) (events : List Event)
    (hnamed : ∀ e ∈ events, e.name = [] → e.padding = 0) :
    events.filterMap (Event.called (fun wd => hash wd.toNat)) = (events.map Event.seen).filterMap (watchEvent hash) := by
  rw [List.filterMap_map]
  refine List.filterMap_congr (fun e he => ?_)
  rw [Event.called, Function.comp_apply, watchEvent, Event.seen]
  by_cases hname : e.name = []
  · have hlen : e.len = 0 := by rw [Event.len, hname, hnamed e he hname]; rfl
    rw [if_pos hlen, if_pos hname]
  · have hlen : e.len ≠ 0 := by
      have hpos : 0 < e.name.length := List.length_pos_iff.2 hname
      rw [Event.len]
      omega
    rw [if_neg hlen, if_neg hname]

end CheckRealtime
