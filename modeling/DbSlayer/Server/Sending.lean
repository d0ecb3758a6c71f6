import DbSlayer.Foundation.Steps
import DbSlayer.Server.LogLines

/-! # Sending a response

A worker prepares a message, and the output thread sends as much of it as the
transport takes at each event. A plain socket is offered the rest of the message as
an `apr_size_t`; the TLS layer takes an `int`.
-/

namespace DbSlayer.Server

open DbSlayer.Http DbSlayer.Json Foundation

/-! ## The message -/

def slayerHttpResponseCodeLookup (code : Int32) : Bytes :=
  if code = 200 then bytes "200 OK"
  else if code = 401 then bytes "401 Unauthorized"
  else if code = 403 then bytes "403 Forbidden"
  else if code = 404 then bytes "404 Not Found"
  else bytes "500 Internal Server Error"

/-- What `slayer_http_handle_response` reads besides its arguments: the date, the name of
the server, and the counter of requests before its increment. -/
structure ResponseContext where
  date : Bytes
  serverName : Bytes
  requestCounter : UInt32
deriving DecidableEq, Repr

def responseHeader (context : ResponseContext) (responseCode : Int32) (mimeType : Bytes)
    (bodySize : Nat) : Bytes :=
  bytes "HTTP/1.0 " ++ slayerHttpResponseCodeLookup responseCode ++ bytes "\r\n" ++
    bytes "Date: " ++ context.date ++ bytes "\r\n" ++
    bytes "Server: " ++ context.serverName ++ bytes "\r\n" ++
    bytes "X-Request-ID: " ++ (bytes "dbslayer-" ++ printNat (context.requestCounter + 1).toNat) ++
    bytes "\r\n" ++ bytes "Content-type: " ++ mimeType ++ bytes "\r\n" ++
    bytes "Content-Length: " ++ printNat bodySize ++ bytes "\r\n" ++
    bytes "Connection: close\r\n" ++ bytes "\r\n"

/-- The part of `slayer_http_request_t` that the output thread uses. `marker` is
`message_marker` less `message`, and `message_end` is the length of the message. -/
structure Outgoing where
  requestLine : Bytes
  responseCode : Int32
  payloadSize : Nat
  message : Bytes
  marker : Nat
  done : Bool
deriving DecidableEq, Repr

/-- `APR_SIZE_MAX`. -/
def aprSizeMax : Nat := 2 ^ 64 - 1

/-- `slayer_http_handle_response` up to the queue. A negative size stands for that of a
C string. -/
def slayerHttpHandleResponse (context : ResponseContext) (requestLine : Bytes)
    (responseCode : Int32) (mimeType message : Bytes) (messageSize : Int64) : Option Outgoing :=
  let bodySize := if messageSize < 0 then strlen message else messageSize.toInt.toNat
  let header := responseHeader context responseCode mimeType bodySize
  if bodySize > aprSizeMax - header.length then none
  else some
    { requestLine
      responseCode
      payloadSize := bodySize
      message := header ++ message.take bodySize
      marker := 0
      done := false }

/-! ## The output thread -/

/-- The calls of the output thread other than the sends. -/
inductive OutCall where
  | statUpdate
  | logRequest (requestLine : Bytes) (responseCode : Int32) (payloadSize : Nat)
  | logErrMessage (requestLine errorMessage : Bytes)
deriving DecidableEq, Repr

/-- A reply, what the transport has taken of it, and the calls so far. -/
structure Sending where
  reply : Outgoing
  sent : Bytes
  calls : List OutCall
deriving DecidableEq, Repr

def Sending.start (reply : Outgoing) : Sending := ⟨reply, [], []⟩

/-- `slayer_tls_send`, with the room in the transport, or none for a failure. -/
def slayerTlsSend (len : Int32) : Option Nat → Int
  | none => -1
  | some room => if len ≤ 0 then -1 else (min room len.toInt.toNat : Nat)

/-- The status of a send, and what was taken of the bytes that are left. -/
def transport (tls : Bool) (bsent : Nat) (answer : Option Nat) : Bool × Nat :=
  if tls then
    let sent := slayerTlsSend (Int32.ofNat bsent) answer
    if sent > 0 then (true, sent.toNat) else (false, 0)
  else
    match answer with
    | none => (false, 0)
    | some room => (true, min room bsent)

namespace Sending

def closedByClient (s : Sending) : Sending :=
  { s with
    reply := { s.reply with done := true }
    calls := s.calls ++
      [.logErrMessage s.reply.requestLine (bytes "Connection closed by client")] }

/-- The marker moves on, and behind the last byte the request is counted and logged. -/
def advance (s : Sending) (bsent : Nat) : Sending :=
  let marker := s.reply.marker + bsent
  let sent := s.sent ++ (s.reply.message.drop s.reply.marker).take bsent
  if marker = s.reply.message.length then
    ⟨{ s.reply with marker, done := true }, sent, s.calls ++
      [.statUpdate, .logRequest s.reply.requestLine s.reply.responseCode s.reply.payloadSize]⟩
  else ⟨{ s.reply with marker }, sent, s.calls⟩

/-- `APR_POLLOUT`. -/
def writable (s : Sending) (tls : Bool) (answer : Option Nat) : Sending :=
  let (success, bsent) := transport tls (s.reply.message.length - s.reply.marker) answer
  if !success || bsent = 0 then s.closedByClient else s.advance bsent

end Sending

/-- What `apr_pollset_poll` reports of a reply. -/
inductive OutEvent where
  | hangup
  | writable (answer : Option Nat)
  | oddball
deriving DecidableEq, Repr

/-- The transport takes at least one byte. -/
def OutEvent.Accepting : OutEvent → Prop
  | writable (some room) => 0 < room
  | _ => False

namespace Sending

def event (s : Sending) (tls : Bool) : OutEvent → Sending
  | .hangup => s.closedByClient
  | .writable answer => s.writable tls answer
  | .oddball => s

/-- A reply that is done leaves the pollset before the next poll. -/
def step (tls : Bool) (s : Sending) (event : OutEvent) : Option Sending :=
  if s.reply.done then none else some (s.event tls event)

/-- Events up to the one that is the last. -/
def run (tls : Bool) : Sending → List OutEvent → Sending
  | s, [] => s
  | s, event :: rest => if s.reply.done then s else run tls (s.event tls event) rest

end Sending

/-! ## What is offered -/

/-- The `int` of a size is positive when the low 32 bits of the size are, as an `int`. -/
theorem int32_ofNat_pos_iff (n : Nat) :
    0 < Int32.ofNat n ↔ 0 < n % 2 ^ 32 ∧ n % 2 ^ 32 < 2 ^ 31 := by
  rw [Int32.lt_iff_toInt_lt, Int32.toInt_ofNat', Int.bmod_def]
  simp only [Int32.toInt_zero, Int32.size]
  split <;> omega

/-- The cast to `int` is the length modulo 2^32, where it is positive. -/
theorem int32_toInt_ofNat_of_pos {n : Nat} (hpos : 0 < Int32.ofNat n) :
    (Int32.ofNat n).toInt.toNat = n % 2 ^ 32 := by
  obtain ⟨hlow, hhigh⟩ := (int32_ofNat_pos_iff n).mp hpos
  rw [Int32.toInt_ofNat', Int.bmod_def]
  simp only [Int32.size]
  split <;> omega

theorem transport_plain (bsent room : Nat) :
    transport false bsent (some room) = (true, min room bsent) := rfl

/-- The TLS layer is offered the low 32 bits of the rest. -/
theorem transport_tls {bsent room : Nat} (hpos : 0 < Int32.ofNat bsent) (hroom : 0 < room) :
    transport true bsent (some room) = (true, min room (bsent % 2 ^ 32)) := by
  have hlow := ((int32_ofNat_pos_iff bsent).mp hpos).1
  have hsome : ¬ Int32.ofNat bsent ≤ 0 := Int32.not_le.mpr hpos
  have htaken : ((min room (bsent % 2 ^ 32) : Nat) : Int) > 0 := by omega
  simp only [transport, if_true, slayerTlsSend, if_neg hsome, int32_toInt_ofNat_of_pos hpos,
    if_pos htaken, Int.toNat_natCast]

/-- With TLS a length that is cast to zero or less is refused. -/
theorem transport_tls_refused {bsent : Nat} (hneg : ¬ 0 < Int32.ofNat bsent)
    (answer : Option Nat) : transport true bsent answer = (false, 0) := by
  have hsent : slayerTlsSend (Int32.ofNat bsent) answer = -1 := by
    cases answer with
    | none => rfl
    | some room => rw [slayerTlsSend, if_pos (Int32.not_lt.mp hneg)]
  simp [transport, hsent]

/-- Either transport takes from the rest of the message what it has room for, as long as
an `int` can hold the length of the rest. -/
theorem transport_eq {tls : Bool} {bsent room : Nat} (hsize : tls = false ∨ bsent < 2 ^ 31)
    (hleft : 0 < bsent) (hroom : 0 < room) :
    transport tls bsent (some room) = (true, min room bsent) := by
  cases tls with
  | false => rfl
  | true =>
      have hsmall : bsent < 2 ^ 31 := hsize.resolve_left (by simp)
      have hmod : bsent % 2 ^ 32 = bsent := Nat.mod_eq_of_lt (by omega)
      rw [transport_tls ((int32_ofNat_pos_iff bsent).mpr (by omega)) hroom, hmod]

/-! ## What holds while a reply is sent -/

/-- The transport has the part of the message in front of the marker; when that is all of
it the reply is done, counted and logged, and before that none of these. -/
structure Faithful (first : Outgoing) (s : Sending) : Prop where
  frame : s.reply = { first with marker := s.reply.marker, done := s.reply.done }
  marker_le : s.reply.marker ≤ first.message.length
  sent_eq : s.sent = first.message.take s.reply.marker
  done_iff : s.reply.done = true ↔ s.sent = first.message
  calls_eq : s.calls = if s.reply.done then
    [.statUpdate, .logRequest first.requestLine first.responseCode first.payloadSize] else []

/-- The reply is sent as a whole by these events, as it would be over a plain socket. -/
structure Delivers (tls : Bool) (reply : Outgoing) (events : List OutEvent) : Prop where
  always : Always (Sending.step tls) (Faithful reply) (.start reply) events
  whole : reply.message.length ≤ events.length →
    ((Sending.start reply).run tls events).sent = reply.message ∧
      ((Sending.start reply).run tls events).reply.done = true
  same : (Sending.start reply).run tls events = (Sending.start reply).run false events

/-- The message does not change while it is sent. -/
theorem Faithful.message_eq {first : Outgoing} {s : Sending} (hfaithful : Faithful first s) :
    s.reply.message = first.message := by
  rw [hfaithful.frame]

/-- Something is left as long as the reply is not done. -/
theorem Faithful.marker_lt {first : Outgoing} {s : Sending} (hfaithful : Faithful first s)
    (hopen : s.reply.done = false) : s.reply.marker < first.message.length := by
  have hpart : s.sent ≠ first.message := by
    intro hall
    have hdone := hfaithful.done_iff.mpr hall
    simp [hopen] at hdone
  have hne : s.reply.marker ≠ first.message.length := by
    intro hall
    rw [hfaithful.sent_eq, hall, List.take_length] at hpart
    exact hpart rfl
  exact lt_of_le_of_ne hfaithful.marker_le hne

theorem faithful_start {reply : Outgoing} (hne : reply.message ≠ []) (hmarker : reply.marker = 0)
    (hopen : reply.done = false) : Faithful reply (.start reply) where
  frame := rfl
  marker_le := by
    rw [Sending.start, hmarker]
    exact Nat.zero_le _
  sent_eq := by simp [Sending.start, hmarker]
  done_iff := by simp [Sending.start, hopen, hne.symm]
  calls_eq := by simp [Sending.start, hopen]

/-- The marker moves by what was taken, and not past the end. -/
theorem advance_faithful {first : Outgoing} {s : Sending} {bsent : Nat}
    (hfaithful : Faithful first s) (hopen : s.reply.done = false)
    (hfits : s.reply.marker + bsent ≤ first.message.length) :
    Faithful first (s.advance bsent) ∧
      (s.advance bsent).reply.marker = s.reply.marker + bsent := by
  have hmessage := hfaithful.message_eq
  have hsent : s.sent ++ (first.message.drop s.reply.marker).take bsent =
      first.message.take (s.reply.marker + bsent) := by
    rw [hfaithful.sent_eq, List.take_add]
  have hcalls : s.calls = [] := by
    rw [hfaithful.calls_eq, hopen]
    rfl
  have hframe := hfaithful.frame
  by_cases hend : s.reply.marker + bsent = first.message.length
  · simp only [Sending.advance, hmessage, hsent, if_pos hend]
    refine ⟨⟨?_, hfits, rfl, ?_, ?_⟩, trivial⟩
    · rw [hframe]
    · simp [hend]
    · rw [hcalls, hframe]
      rfl
  · simp only [Sending.advance, hmessage, hsent, if_neg hend]
    refine ⟨⟨?_, hfits, rfl, ?_, ?_⟩, trivial⟩
    · rw [hframe]
    · simp only [hopen, Bool.false_eq_true, false_iff]
      intro hall
      have hlength := congrArg List.length hall
      rw [List.length_take] at hlength
      omega
    · simp [hcalls, hopen]

/-! ## Runs -/

/-- A length that the `int` of the TLS layer holds, where there is one. -/
def Sendable (tls : Bool) (reply : Outgoing) : Prop := tls = false ∨ reply.message.length < 2 ^ 31

theorem event_eq_advance {tls : Bool} {first : Outgoing} {s : Sending} {event : OutEvent}
    (hsize : Sendable tls first) (hfaithful : Faithful first s) (hopen : s.reply.done = false)
    (hevent : event.Accepting) :
    ∃ bsent, 0 < bsent ∧ s.reply.marker + bsent ≤ first.message.length ∧
      s.event tls event = s.advance bsent ∧ s.event false event = s.advance bsent := by
  match event, hevent with
  | .writable (some room), hroom =>
      have hlt := hfaithful.marker_lt hopen
      have hleft : 0 < first.message.length - s.reply.marker := by omega
      have hpos : min room (first.message.length - s.reply.marker) ≠ 0 := by
        have hroom' : 0 < room := hroom
        omega
      have hsize' : tls = false ∨ first.message.length - s.reply.marker < 2 ^ 31 :=
        hsize.imp_right fun hsmall => by omega
      refine ⟨min room (first.message.length - s.reply.marker), by omega, by omega, ?_, ?_⟩
      · simp only [Sending.event, Sending.writable, hfaithful.message_eq,
          transport_eq hsize' hleft hroom, Bool.not_true, Bool.false_or, decide_eq_true_eq,
          if_neg hpos]
      · simp only [Sending.event, Sending.writable, hfaithful.message_eq, transport_plain,
          Bool.not_true, Bool.false_or, decide_eq_true_eq, if_neg hpos]

/-- Behind an accepting event the client has a prefix of the message, and the reply is done
exactly when the prefix is the whole of it. -/
theorem event_faithful {tls : Bool} {first : Outgoing} {s : Sending} {event : OutEvent}
    (hsize : Sendable tls first) (hfaithful : Faithful first s) (hopen : s.reply.done = false)
    (hevent : event.Accepting) :
    Faithful first (s.event tls event) ∧ s.reply.marker < (s.event tls event).reply.marker := by
  obtain ⟨bsent, hpos, hfits, heq, -⟩ := event_eq_advance hsize hfaithful hopen hevent
  obtain ⟨hnext, hmarker⟩ := advance_faithful hfaithful hopen hfits
  rw [heq]
  exact ⟨hnext, by omega⟩

theorem step_faithful {tls : Bool} {first : Outgoing} (hsize : Sendable tls first) (s : Sending)
    (event : OutEvent) (next : Sending) (hfaithful : Faithful first s) (hevent : event.Accepting)
    (hstep : Sending.step tls s event = some next) : Faithful first next := by
  unfold Sending.step at hstep
  split at hstep
  next => simp at hstep
  next hopen =>
    obtain rfl := Option.some.inj hstep
    exact (event_faithful hsize hfaithful (Bool.eq_false_of_not_eq_true hopen) hevent).1

/-- Every event brings the marker on, so that as many events as there are bytes left finish the
reply. -/
theorem run_done {tls : Bool} {first : Outgoing} {s : Sending} {events : List OutEvent}
    (hsize : Sendable tls first) (hfaithful : Faithful first s)
    (hevents : ∀ event ∈ events, event.Accepting)
    (hmany : first.message.length ≤ s.reply.marker + events.length) :
    (s.run tls events).sent = first.message ∧ (s.run tls events).reply.done = true := by
  induction events generalizing s with
  | nil =>
      rw [Sending.run]
      have hall : s.sent = first.message := by
        rw [hfaithful.sent_eq]
        exact List.take_of_length_le (by simpa using hmany)
      exact ⟨hall, hfaithful.done_iff.mpr hall⟩
  | cons event rest ih =>
      rw [Sending.run]
      split
      next hdone => exact ⟨hfaithful.done_iff.mp hdone, hdone⟩
      next hopen =>
        obtain ⟨hnext, hless⟩ := event_faithful hsize hfaithful
          (Bool.eq_false_of_not_eq_true hopen) (hevents event List.mem_cons_self)
        apply ih hnext (fun other hother => hevents other (List.mem_cons_of_mem event hother))
        simp only [List.length_cons] at hmany
        omega

theorem run_eq_plain {tls : Bool} {first : Outgoing} {s : Sending} {events : List OutEvent}
    (hsize : Sendable tls first) (hfaithful : Faithful first s)
    (hevents : ∀ event ∈ events, event.Accepting) : s.run tls events = s.run false events := by
  induction events generalizing s with
  | nil => rfl
  | cons event rest ih =>
      rw [Sending.run, Sending.run]
      split
      next => rfl
      next hopen =>
        have hopen' := Bool.eq_false_of_not_eq_true hopen
        have hevent := hevents event List.mem_cons_self
        have hnext := (event_faithful hsize hfaithful hopen' hevent).1
        obtain ⟨bsent, -, -, heq, hplain⟩ := event_eq_advance hsize hfaithful hopen' hevent
        rw [ih hnext fun other hother => hevents other (List.mem_cons_of_mem event hother), heq,
          hplain]

/-! ## A rest that the TLS layer refuses -/

/-- Where the `int` of the rest is not positive, the reply is given up with something left to
send. -/
theorem refused_not_faithful {first : Outgoing} {s : Sending} (hfaithful : Faithful first s)
    (hopen : s.reply.done = false)
    (hneg : ¬ 0 < Int32.ofNat (first.message.length - s.reply.marker)) :
    ¬ Always (Sending.step true) (Faithful first) s [.writable (some 1)] := by
  intro halways
  have hpart := hfaithful.marker_lt hopen
  have hstep : Sending.step true s (.writable (some 1)) = some s.closedByClient := by
    simp [Sending.step, hopen, Sending.event, Sending.writable, hfaithful.message_eq,
      transport_tls_refused hneg]
  have hall : s.sent = first.message := (halways.2 _ hstep).done_iff.mp rfl
  rw [hfaithful.sent_eq] at hall
  have hlength := congrArg List.length hall
  rw [List.length_take] at hlength
  omega

/-- A message that is too long is given up at once, or when the low 32 bits of its length
have been sent. -/
theorem not_always_faithful {reply : Outgoing} (hstart : Faithful reply (.start reply))
    (hmarker : reply.marker = 0) (hopen : reply.done = false)
    (hlong : 2 ^ 31 ≤ reply.message.length) :
    ∃ events : List OutEvent, (∀ event ∈ events, event.Accepting) ∧
      ¬ Always (Sending.step true) (Faithful reply) (.start reply) events := by
  have hrest : reply.message.length - (Sending.start reply).reply.marker =
      reply.message.length := by
    rw [Sending.start, hmarker, Nat.sub_zero]
  by_cases hpos : 0 < Int32.ofNat reply.message.length
  · obtain ⟨hlow, hhigh⟩ := (int32_ofNat_pos_iff _).mp hpos
    have hfits : (Sending.start reply).reply.marker + reply.message.length % 2 ^ 32 ≤
        reply.message.length := by
      rw [Sending.start, hmarker]
      omega
    obtain ⟨hnext, hmarker'⟩ := advance_faithful hstart hopen hfits
    rw [Sending.start, hmarker, Nat.zero_add] at hmarker'
    have hopen' : ((Sending.start reply).advance
        (reply.message.length % 2 ^ 32)).reply.done = false := by
      rw [Bool.eq_false_iff, Ne, hnext.done_iff, hnext.sent_eq]
      intro hall
      have hlength := congrArg List.length hall
      rw [List.length_take, Sending.start, hmarker'] at hlength
      omega
    have hneg : ¬ 0 < Int32.ofNat (reply.message.length -
        ((Sending.start reply).advance (reply.message.length % 2 ^ 32)).reply.marker) := by
      rw [Sending.start, hmarker', int32_ofNat_pos_iff]
      omega
    have hstep : Sending.step true (.start reply)
        (.writable (some (reply.message.length % 2 ^ 32))) =
          some ((Sending.start reply).advance (reply.message.length % 2 ^ 32)) := by
      have hne : reply.message.length % 2 ^ 32 ≠ 0 := by omega
      have htake := transport_tls hpos hlow
      rw [Nat.min_self] at htake
      simp only [Sending.step, Sending.event, Sending.writable, Sending.start, hopen, hmarker,
        Nat.sub_zero, htake, Bool.not_true, Bool.false_or, decide_eq_true_eq, if_neg hne,
        Bool.false_eq_true, if_false]
    refine ⟨[.writable (some (reply.message.length % 2 ^ 32)), .writable (some 1)], ?_, ?_⟩
    · intro event hevent
      rcases List.mem_cons.mp hevent with rfl | hlast
      · exact hlow
      · obtain rfl := List.mem_singleton.mp hlast
        exact Nat.one_pos
    · intro halways
      exact refused_not_faithful hnext hopen' hneg (halways.2 _ hstep)
  · refine ⟨[.writable (some 1)], by simp [OutEvent.Accepting], ?_⟩
    apply refused_not_faithful hstart hopen
    rw [hrest]
    exact hpos

/-! ## Prepared replies -/

theorem responseHeader_ne_nil (context : ResponseContext) (responseCode : Int32) (mimeType : Bytes)
    (bodySize : Nat) : responseHeader context responseCode mimeType bodySize ≠ [] := by
  have hstart : bytes "HTTP/1.0 " ≠ [] := by decide
  unfold responseHeader
  repeat' apply List.append_ne_nil_of_left_ne_nil
  exact hstart

/-- A reply starts unsent, with something to send. -/
theorem slayerHttpHandleResponse_start {context : ResponseContext} {requestLine : Bytes}
    {responseCode : Int32} {mimeType message : Bytes} {messageSize : Int64} {reply : Outgoing}
    (hreply : slayerHttpHandleResponse context requestLine responseCode mimeType message
      messageSize = some reply) :
    reply.marker = 0 ∧ reply.done = false ∧ Faithful reply (.start reply) := by
  simp only [slayerHttpHandleResponse, Option.ite_none_left_eq_some, Option.some.injEq] at hreply
  obtain ⟨-, rfl⟩ := hreply
  refine ⟨rfl, rfl, faithful_start ?_ rfl rfl⟩
  exact List.append_ne_nil_of_left_ne_nil (responseHeader_ne_nil _ _ _ _) _

/-- A prepared reply is sent as a whole by all events that take something of it, and as over
a plain socket, exactly when an `int` holds its length or the socket is a plain one. -/
theorem reply_delivered_iff (context : ResponseContext) (requestLine : Bytes)
    (responseCode : Int32) (mimeType message : Bytes) (messageSize : Int64) (reply : Outgoing)
    (hreply : slayerHttpHandleResponse context requestLine responseCode mimeType message
      messageSize = some reply) (tls : Bool) :
    (∀ events : List OutEvent, (∀ event ∈ events, event.Accepting) → Delivers tls reply events) ↔
      tls = false ∨ reply.message.length < 2 ^ 31 := by
  obtain ⟨hmarker, hopen, hstart⟩ := slayerHttpHandleResponse_start hreply
  refine ⟨fun hdelivers => ?_, fun hsize events hevents => ?_⟩
  · by_contra hlong
    obtain ⟨htls, hlength⟩ := not_or.mp hlong
    obtain rfl : tls = true := Bool.eq_true_of_not_eq_false htls
    obtain ⟨events, hevents, hnot⟩ :=
      not_always_faithful hstart hmarker hopen (Nat.le_of_not_lt hlength)
    exact hnot (hdelivers events hevents).always
  · refine ⟨?_, fun hmany => ?_, run_eq_plain hsize hstart hevents⟩
    · exact always_of_eachStep (step_faithful hsize) hstart (eachStep_of_forall_mem hevents)
    · apply run_done hsize hstart hevents
      rw [Sending.start, hmarker, Nat.zero_add]
      exact hmany

/-- Two events over TLS, the second of which takes what is left. -/
theorem reply_delivered_short :
    ∃ reply, slayerHttpHandleResponse ⟨bytes "now", bytes "db", 6⟩ (bytes "GET / HTTP/1.0") 200
        (bytes "text/plain") (bytes "hi") (-1) = some reply ∧
      Delivers true reply [.writable (some 100), .writable (some 100)] := by
  obtain ⟨reply, hreply, hlength⟩ := Option.map_eq_some_iff.mp (show (slayerHttpHandleResponse
    ⟨bytes "now", bytes "db", 6⟩ (bytes "GET / HTTP/1.0") 200 (bytes "text/plain") (bytes "hi")
      (-1)).map (fun reply => reply.message.length) = some 134 by decide +kernel)
  refine ⟨reply, hreply, (reply_delivered_iff _ _ _ _ _ _ reply hreply true).mpr (.inr ?_) _ ?_⟩
  · rw [hlength]
    decide
  · intro event hevent
    simp only [List.mem_cons, List.not_mem_nil, or_false, or_self] at hevent
    rw [hevent]
    exact Nat.succ_pos 99

/-- A body of 2³¹ bytes over TLS: the first event gives the reply up, with nothing sent. -/
theorem reply_stranded :
    ∃ reply, slayerHttpHandleResponse ⟨bytes "now", bytes "db", 6⟩ (bytes "GET /db HTTP/1.0") 200
        (bytes "text/plain") (List.replicate (2 ^ 31) (ch 'a')) (-1) = some reply ∧
      OutEvent.Accepting (.writable (some 1)) ∧ ¬ Delivers true reply [.writable (some 1)] := by
  have hfree : NulFree (List.replicate (2 ^ 31) (ch 'a')) := by
    intro hzero
    exact absurd (List.eq_of_mem_replicate hzero) (by decide)
  have hbody : strlen (List.replicate (2 ^ 31) (ch 'a')) = 2 ^ 31 := by
    rw [strlen_of_nulFree hfree, List.length_replicate]
  have hheader : (responseHeader ⟨bytes "now", bytes "db", 6⟩ 200 (bytes "text/plain")
      (2 ^ 31)).length = 141 := by decide +kernel
  have hfits : ¬ 2 ^ 31 > aprSizeMax - 141 := by decide
  obtain ⟨reply, hreply, hlength⟩ : ∃ reply, slayerHttpHandleResponse
      ⟨bytes "now", bytes "db", 6⟩ (bytes "GET /db HTTP/1.0") 200 (bytes "text/plain")
        (List.replicate (2 ^ 31) (ch 'a')) (-1) = some reply ∧
      reply.message.length = 2 ^ 31 + 141 := by
    have hstring : (-1 : Int64) < 0 := by decide
    simp only [slayerHttpHandleResponse, if_pos hstring, hbody, hheader, if_neg hfits]
    refine ⟨_, rfl, ?_⟩
    rw [List.length_append, hheader, List.length_take, List.length_replicate]
    rfl
  obtain ⟨hmarker, hopen, hstart⟩ := slayerHttpHandleResponse_start hreply
  refine ⟨reply, hreply, Nat.one_pos, fun hdelivers => ?_⟩
  refine refused_not_faithful hstart hopen ?_ hdelivers.always
  rw [Sending.start, hmarker, hlength, int32_ofNat_pos_iff]
  decide

end DbSlayer.Server
