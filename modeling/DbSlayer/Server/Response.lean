import DbSlayer.Foundation.Framed
import DbSlayer.Server.Sending

/-! # What the client reads

A client splits the answer into a status line, fields and a body of the announced
length. It reads back exactly what the worker put together, and can tell a complete
answer from one that was cut off. The server tells them apart in the same way: it
counts and logs a request as served exactly when the client can read the answer.
-/

namespace DbSlayer.Server

open DbSlayer.Http Foundation

/-! ## The reader -/

/-- The name and the value of a field. -/
def readField (line : Bytes) : Option (Bytes × Bytes) := Framed.readLine (ch ':') (ch ' ') line

/-- The value of the first field with the name, which has to be a number. -/
def contentLength (lines : List Bytes) : Option Nat := do
  let fields ← (lines.drop 1).mapM readField
  let (_, value) ← fields.find? fun field => strcasecmp field.1 (bytes "Content-Length") = 0
  if value ≠ [] ∧ value.all isdigit then some (decimalValue value) else none

/-- What a client has of an answer. -/
structure Received where
  status : Bytes
  fields : List (Bytes × Bytes)
  body : Bytes
deriving DecidableEq, Repr

/-- `none` while the answer is not complete. -/
def readResponse (text : Bytes) : Option Received := do
  let (lines, body) ← Framed.read 13 10 contentLength text
  let fields ← (lines.drop 1).mapM readField
  return ⟨lines.headD [], fields, body⟩

/-! ## The head of an answer -/

def fieldLine (field : Bytes × Bytes) : Bytes := field.1 ++ bytes ": " ++ field.2

/-- The fields that `slayer_http_handle_response` writes. -/
def responseFields (context : ResponseContext) (mimeType : Bytes) (bodySize : Nat) :
    List (Bytes × Bytes) := [
  (bytes "Date", context.date),
  (bytes "Server", context.serverName),
  (bytes "X-Request-ID", bytes "dbslayer-" ++ printNat (context.requestCounter + 1).toNat),
  (bytes "Content-type", mimeType),
  (bytes "Content-Length", printNat bodySize),
  (bytes "Connection", bytes "close")]

def responseLines (context : ResponseContext) (responseCode : Int32) (mimeType : Bytes)
    (bodySize : Nat) : List Bytes :=
  (bytes "HTTP/1.0 " ++ slayerHttpResponseCodeLookup responseCode) ::
    (responseFields context mimeType bodySize).map fieldLine

section Head

variable {context : ResponseContext} {responseCode : Int32} {mimeType : Bytes} {bodySize : Nat}

theorem responseHeader_eq_writeHead :
    responseHeader context responseCode mimeType bodySize =
      Framed.writeHead 13 10 (responseLines context responseCode mimeType bodySize) := by
  have hline : bytes "\r\n" = [13, 10] := by decide
  have hdate : bytes "Date: " = bytes "Date" ++ bytes ": " := by decide
  have hserver : bytes "Server: " = bytes "Server" ++ bytes ": " := by decide
  have hid : bytes "X-Request-ID: " = bytes "X-Request-ID" ++ bytes ": " := by decide
  have htype : bytes "Content-type: " = bytes "Content-type" ++ bytes ": " := by decide
  have hlength : bytes "Content-Length: " = bytes "Content-Length" ++ bytes ": " := by decide
  have hclose : bytes "Connection: close\r\n" =
      bytes "Connection" ++ bytes ": " ++ bytes "close" ++ [13, 10] := by decide
  unfold responseHeader
  rw [hline, hdate, hserver, hid, htype, hlength, hclose]
  simp only [Framed.writeHead, responseLines, responseFields, fieldLine, List.map_cons,
    List.map_nil, List.flatMap_cons, List.flatMap_nil, List.append_assoc, List.nil_append]

theorem readField_fieldLine {field : Bytes × Bytes} (hname : ch ':' ∉ field.1) :
    readField (fieldLine field) = some field := by
  have hwrite : fieldLine field = field.1 ++ ch ':' :: ch ' ' :: field.2 := by
    rw [fieldLine, List.append_assoc]
    rfl
  rw [readField, hwrite]
  exact Framed.readLine_write hname field.2

theorem mapM_readField {fields : List (Bytes × Bytes)}
    (hnames : ∀ field ∈ fields, ch ':' ∉ field.1) :
    (fields.map fieldLine).mapM readField = some fields := by
  induction fields with
  | nil => rfl
  | cons field rest ih =>
      have hrest := ih fun other hother => hnames other (List.mem_cons_of_mem field hother)
      have hfirst := readField_fieldLine (hnames field List.mem_cons_self)
      rw [List.map_cons, List.mapM_cons, hfirst, hrest]
      rfl

theorem mapM_readField_responseLines :
    ((responseLines context responseCode mimeType bodySize).drop 1).mapM readField =
      some (responseFields context mimeType bodySize) := by
  apply mapM_readField
  simp only [responseFields, List.forall_mem_cons]
  decide

/-- The length that is found is the length of the body. -/
theorem contentLength_responseLines :
    contentLength (responseLines context responseCode mimeType bodySize) = some bodySize := by
  have hfind : (responseFields context mimeType bodySize).find?
      (fun field => strcasecmp field.1 (bytes "Content-Length") = 0) =
        some (bytes "Content-Length", printNat bodySize) := by
    have hdate : strcasecmp (bytes "Date") (bytes "Content-Length") ≠ 0 := by decide
    have hserver : strcasecmp (bytes "Server") (bytes "Content-Length") ≠ 0 := by decide
    have hid : strcasecmp (bytes "X-Request-ID") (bytes "Content-Length") ≠ 0 := by decide
    have htype : strcasecmp (bytes "Content-type") (bytes "Content-Length") ≠ 0 := by decide
    have hlength : strcasecmp (bytes "Content-Length") (bytes "Content-Length") = 0 := by decide
    simp only [responseFields, List.find?_cons, hdate, hserver, hid, htype, hlength, decide_false,
      decide_true]
  have hdigits : ∀ c ∈ printNat bodySize, isdigit c = true := fun c => isdigit_of_mem_printNat
  rw [contentLength, mapM_readField_responseLines]
  simp only [Option.bind_eq_bind, Option.bind_some, hfind, List.all_eq_true]
  rw [if_pos ⟨printNat_ne_nil bodySize, hdigits⟩, decimalValue_printNat]

/-- No line of the response is empty or has a carriage return in it. -/
theorem responseLines_plain (hdate : 13 ∉ context.date) (hserver : 13 ∉ context.serverName)
    (hmime : 13 ∉ mimeType) :
    ∀ line ∈ responseLines context responseCode mimeType bodySize, line ≠ [] ∧ 13 ∉ line := by
  have hprint : ∀ n, 13 ∉ printNat n := by
    intro n hmem
    have hdigit := isdigit_of_mem_printNat hmem
    revert hdigit
    decide
  have hcode : 13 ∉ slayerHttpResponseCodeLookup responseCode := by
    unfold slayerHttpResponseCodeLookup
    repeat (first | split | decide)
  have hid : 13 ∉ bytes "dbslayer-" ++ printNat (context.requestCounter + 1).toNat := by
    rw [List.mem_append]
    exact not_or.mpr ⟨by decide, hprint _⟩
  have hfield : ∀ field ∈ responseFields context mimeType bodySize,
      13 ∉ field.1 ∧ 13 ∉ field.2 := by
    simp only [responseFields, List.forall_mem_cons, List.not_mem_nil, false_implies, implies_true,
      and_true]
    exact ⟨⟨by decide, hdate⟩, ⟨by decide, hserver⟩, ⟨by decide, hid⟩, ⟨by decide, hmime⟩,
      ⟨by decide, hprint bodySize⟩, by decide, by decide⟩
  intro line hline
  obtain rfl | hline := List.mem_cons.mp hline
  · refine ⟨List.append_ne_nil_of_left_ne_nil (by decide) _, ?_⟩
    rw [List.mem_append]
    exact not_or.mpr ⟨by decide, hcode⟩
  · obtain ⟨field, hmem, rfl⟩ := List.mem_map.mp hline
    obtain ⟨hname, hvalue⟩ := hfield field hmem
    refine ⟨?_, ?_⟩
    · apply List.append_ne_nil_of_left_ne_nil
      exact List.append_ne_nil_of_right_ne_nil _ (by decide)
    · simp only [fieldLine, List.mem_append, not_or]
      exact ⟨⟨hname, by decide⟩, hvalue⟩

end Head

/-! ## Answers read back -/

section Reply

variable {context : ResponseContext} {requestLine : Bytes} {responseCode : Int32}
  {mimeType message : Bytes} {messageSize : Int64} {reply : Outgoing}

/-- The message is a head and a body of the announced length. -/
theorem message_eq_writeHead
    (hreply : slayerHttpHandleResponse context requestLine responseCode mimeType message
      messageSize = some reply) (hsize : messageSize.toInt ≤ message.length) :
    (message.take reply.payloadSize).length = reply.payloadSize ∧
      reply.message = Framed.writeHead 13 10
        (responseLines context responseCode mimeType reply.payloadSize) ++
          message.take reply.payloadSize := by
  have hbody : (if messageSize < 0 then strlen message else messageSize.toInt.toNat) ≤
      message.length := by
    split
    next => exact (List.takeWhile_prefix _).length_le
    next => omega
  simp only [slayerHttpHandleResponse, Option.ite_none_left_eq_some, Option.some.injEq] at hreply
  obtain ⟨-, rfl⟩ := hreply
  refine ⟨?_, by rw [responseHeader_eq_writeHead]⟩
  rw [List.length_take]
  exact Nat.min_eq_left hbody

/-- A client that reads the message of a reply gets the status, the header fields and the body,
and nothing else is left to read. -/
theorem readResponse_of_reply
    (hreply : slayerHttpHandleResponse context requestLine responseCode mimeType message
      messageSize = some reply) (hsize : messageSize.toInt ≤ message.length)
    (hdate : 13 ∉ context.date) (hserver : 13 ∉ context.serverName) (hmime : 13 ∉ mimeType) :
    readResponse reply.message = some
        { status := bytes "HTTP/1.0 " ++ slayerHttpResponseCodeLookup responseCode
          fields := responseFields context mimeType reply.payloadSize
          body := message.take reply.payloadSize } ∧
      ∀ part, part <+: reply.message → (readResponse part).isSome = true →
        part = reply.message := by
  obtain ⟨hbody, hmessage⟩ := message_eq_writeHead hreply hsize
  have hlines : ∀ line ∈ responseLines context responseCode mimeType reply.payloadSize,
      line ≠ [] ∧ 13 ∉ line := responseLines_plain hdate hserver hmime
  have hlength : contentLength (responseLines context responseCode mimeType reply.payloadSize) =
      some (message.take reply.payloadSize).length := by
    rw [hbody]
    exact contentLength_responseLines
  rw [hmessage]
  refine ⟨?_, fun part hpart hread => ?_⟩
  · rw [readResponse, Framed.read_write hlines hlength]
    simp only [Option.bind_eq_bind, Option.bind_some, mapM_readField_responseLines]
    rfl
  · apply Framed.eq_of_read_isSome hlines hlength hpart
    obtain ⟨received, hreceived⟩ := Option.isSome_iff_exists.mp hread
    obtain ⟨framed, hframed, -⟩ := Option.bind_eq_some_iff.mp hreceived
    exact Option.isSome_iff_exists.mpr ⟨framed, hframed⟩

end Reply

/-! ## Served and received -/

/-- What holds of a reply under any events: the transport has the part in front of the
marker, and nothing is counted or logged before the end. -/
structure Underway (first : Outgoing) (s : Sending) : Prop where
  frame : s.reply = { first with marker := s.reply.marker, done := s.reply.done }
  sent_eq : s.sent = first.message.take s.reply.marker
  pending : s.reply.done = false → s.reply.marker < first.message.length ∧ s.calls = []
  ended : s.reply.done = true → s.calls = if s.sent = first.message then
    [.statUpdate, .logRequest first.requestLine first.responseCode first.payloadSize]
    else [.logErrMessage first.requestLine (bytes "Connection closed by client")]

/-- A transport takes at most what it is offered. -/
theorem transport_le (tls : Bool) (bsent : Nat) (answer : Option Nat) :
    (transport tls bsent answer).2 ≤ bsent := by
  cases tls with
  | false =>
      cases answer with
      | none => exact Nat.zero_le _
      | some room => exact Nat.min_le_right room bsent
  | true =>
      by_cases hpos : 0 < Int32.ofNat bsent
      · cases answer with
        | none => exact Nat.zero_le _
        | some room =>
            obtain rfl | hroom := Nat.eq_zero_or_pos room
            · simp [transport, slayerTlsSend, Int32.not_le.mpr hpos]
            · rw [transport_tls hpos hroom]
              exact le_trans (Nat.min_le_right _ _) (Nat.mod_le _ _)
      · rw [transport_tls_refused hpos]
        exact Nat.zero_le _

section Underway

variable {first : Outgoing} {s : Sending}

/-- The message does not change while it is sent. -/
theorem Underway.message_eq (hunder : Underway first s) : s.reply.message = first.message := by
  rw [hunder.frame]

/-- A reply that is given up is logged once, as closed by the client. -/
theorem Underway.closedByClient (hunder : Underway first s) (hopen : s.reply.done = false) :
    Underway first s.closedByClient := by
  obtain ⟨hmarker, hcalls⟩ := hunder.pending hopen
  have hpart : s.sent ≠ first.message := by
    intro hall
    have hlength := congrArg List.length (hunder.sent_eq.symm.trans hall)
    rw [List.length_take] at hlength
    omega
  refine ⟨?_, hunder.sent_eq, fun hfalse => by simp [Sending.closedByClient] at hfalse, fun _ => ?_⟩
  · simp only [Sending.closedByClient]
    rw [hunder.frame]
  · have hline : s.reply.requestLine = first.requestLine := by rw [hunder.frame]
    simp only [Sending.closedByClient, if_neg hpart, hcalls, List.nil_append, hline]

/-- A part that is sent moves the marker, and the last part finishes the reply. -/
theorem Underway.advance (hunder : Underway first s) (hopen : s.reply.done = false) {bsent : Nat}
    (hfits : bsent ≤ first.message.length - s.reply.marker) :
    Underway first (s.advance bsent) := by
  obtain ⟨hmarker, hcalls⟩ := hunder.pending hopen
  have hmessage := hunder.message_eq
  have hsent : s.sent ++ (first.message.drop s.reply.marker).take bsent =
      first.message.take (s.reply.marker + bsent) := by
    rw [hunder.sent_eq, List.take_add]
  unfold Sending.advance
  rw [hmessage]
  dsimp only
  split
  next hend =>
    have hall : first.message.take (s.reply.marker + bsent) = first.message := by
      rw [hend, List.take_length]
    refine ⟨?_, hsent, fun hfalse => by simp at hfalse, fun _ => ?_⟩
    · dsimp only
      rw [hunder.frame]
    · have hline : s.reply.requestLine = first.requestLine := by rw [hunder.frame]
      have hcode : s.reply.responseCode = first.responseCode := by rw [hunder.frame]
      have hsize : s.reply.payloadSize = first.payloadSize := by rw [hunder.frame]
      dsimp only
      rw [hsent, if_pos hall, hcalls, hline, hcode, hsize, List.nil_append]
  next hmore =>
    refine ⟨?_, hsent, fun _ => ⟨?_, hcalls⟩, fun hdone => by simp [hopen] at hdone⟩
    · dsimp only
      rw [hunder.frame]
    · dsimp only
      omega

/-- What one event leaves is underway again: what was taken and what was logged still belong to
this reply. -/
theorem Underway.event (hunder : Underway first s) (hopen : s.reply.done = false) (tls : Bool)
    (event : OutEvent) : Underway first (s.event tls event) := by
  cases event with
  | hangup => exact hunder.closedByClient hopen
  | oddball => exact hunder
  | writable answer =>
      have htaken := transport_le tls (s.reply.message.length - s.reply.marker) answer
      simp only [Sending.event, Sending.writable]
      split
      next => exact hunder.closedByClient hopen
      next =>
        rw [hunder.message_eq] at htaken ⊢
        exact hunder.advance hopen htaken

/-- What a whole run leaves, by induction on its events. -/
theorem Underway.run (hunder : Underway first s) (tls : Bool) (events : List OutEvent) :
    Underway first (s.run tls events) := by
  induction events generalizing s with
  | nil => exact hunder
  | cons event rest ih =>
      rw [Sending.run]
      split
      next => exact hunder
      next hopen => exact ih (hunder.event (Bool.eq_false_of_not_eq_true hopen) tls event)

end Underway

/-- The client reads back the status, the fields and the body of a whole answer. Whatever the
transport does, the request is counted and logged as served when the client can read the
answer, and logged as closed by the client when an event of the pollset ended it before that.
While none of them has ended it, nothing is counted or logged. -/
theorem served_iff_received (context : ResponseContext) (requestLine : Bytes)
    (responseCode : Int32) (mimeType message : Bytes) (messageSize : Int64) (reply : Outgoing)
    (hreply : slayerHttpHandleResponse context requestLine responseCode mimeType message
      messageSize = some reply) (hsize : messageSize.toInt ≤ message.length)
    (hdate : 13 ∉ context.date) (hserver : 13 ∉ context.serverName) (hmime : 13 ∉ mimeType) :
    readResponse reply.message = some
        { status := bytes "HTTP/1.0 " ++ slayerHttpResponseCodeLookup responseCode
          fields := responseFields context mimeType reply.payloadSize
          body := message.take reply.payloadSize } ∧
      ∀ tls (events : List OutEvent),
        let s := (Sending.start reply).run tls events
        s.sent <+: reply.message ∧
          s.calls =
            if (readResponse s.sent).isSome then
              [.statUpdate, .logRequest requestLine responseCode reply.payloadSize]
            else if s.reply.done then
              [.logErrMessage requestLine (bytes "Connection closed by client")]
            else [] := by
  obtain ⟨hmarker, hopen, hstart⟩ := slayerHttpHandleResponse_start hreply
  have hfields : reply.requestLine = requestLine ∧ reply.responseCode = responseCode := by
    simp only [slayerHttpHandleResponse, Option.ite_none_left_eq_some, Option.some.injEq] at hreply
    obtain ⟨-, rfl⟩ := hreply
    exact ⟨rfl, rfl⟩
  obtain ⟨hread, hparts⟩ := readResponse_of_reply hreply hsize hdate hserver hmime
  have hfirst : Underway reply (.start reply) :=
    ⟨rfl, hstart.sent_eq, fun _ => ⟨hstart.marker_lt hopen, rfl⟩,
      fun hdone => absurd hdone (by simp [Sending.start, hopen])⟩
  refine ⟨hread, fun tls events => ?_⟩
  have hunder := hfirst.run tls events
  intro s
  have hsent : s.sent <+: reply.message := by
    rw [hunder.sent_eq]
    exact List.take_prefix _ _
  -- the client can read what was sent exactly when that is the whole answer
  have hwhole : (readResponse s.sent).isSome = true ↔ s.sent = reply.message :=
    ⟨hparts s.sent hsent, fun hall => by rw [hall, hread]; rfl⟩
  refine ⟨hsent, ?_⟩
  by_cases hdone : s.reply.done = true
  · rw [hunder.ended hdone, hfields.1, hfields.2, if_pos hdone]
    simp only [hwhole]
    rfl
  · obtain ⟨hmarker, hcalls⟩ := hunder.pending (Bool.eq_false_of_not_eq_true hdone)
    have hpart : ¬ (readResponse s.sent).isSome = true := by
      rw [hwhole, hunder.sent_eq]
      intro hall
      have hlength := congrArg List.length hall
      rw [List.length_take] at hlength
      omega
    rw [hcalls, if_neg hpart, if_neg hdone]

/-- Three bytes are taken, and then the client is gone: what it has is a front part of the
message. -/
theorem served_iff_received_hangup :
    ∃ reply, slayerHttpHandleResponse ⟨bytes "now", bytes "db", 6⟩ (bytes "GET / HTTP/1.0") 200
        (bytes "text/plain") (bytes "hi") (-1) = some reply ∧
      (readResponse reply.message).isSome = true ∧
      ((Sending.start reply).run false [.writable (some 3), .hangup]).sent <+: reply.message := by
  obtain ⟨reply, hreply⟩ := Option.isSome_iff_exists.mp (show (slayerHttpHandleResponse
    ⟨bytes "now", bytes "db", 6⟩ (bytes "GET / HTTP/1.0") 200 (bytes "text/plain") (bytes "hi")
      (-1)).isSome = true by decide +kernel)
  obtain ⟨hread, hserved⟩ := served_iff_received _ _ _ _ _ _ reply hreply (by decide) (by decide)
    (by decide) (by decide)
  exact ⟨reply, hreply, by rw [hread]; rfl, (hserved false [.writable (some 3), .hangup]).1⟩

end DbSlayer.Server
