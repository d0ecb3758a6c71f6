import DbSlayer.Foundation.Traced
import DbSlayer.Http.Delivery

/-! # The HTTP parser on its arrays

The parser again, with the blocks it allocates and every access to them. An offset
stands for a pointer: `buffer_marker` and the loop's `p` count from `buffer`,
`uri_end` from `uri_start`. The loops keep their state in a local variable and
store it when they end, so a request that is refused leaves the stored one alone.
-/

namespace DbSlayer.Http

open Foundation Traced

/-- `slayer_http_request_parse_t` with its blocks. -/
structure ParseMemory where
  requestState : RequestState
  methodString : Bytes
  methodSize : Nat
  uriDataSize : Nat
  uriData : Bytes
  uriEnd : Nat
  method : HttpMethod
  version : HttpVersion
  headerState : HeaderState
  buffer : Bytes
  bufferSize : Nat
  /-- `none` is the null pointer. -/
  bufferMarker : Option Nat
  headers : List Header
  headerName : Bytes
  headerNameSize : Nat
  headerValue : Bytes
  headerValueSize : Nat
  headerBytesRead : Nat

/-- `apr_pstrdup`, which reads up to the terminator. -/
def strdup (block : Bytes) : Traced ParseMemory Bytes :=
  if 0 ∈ block then pure (cstr block) else fault

/-- How a loop body treats one byte, with the local state behind it. -/
inductive Switch (σ : Type) where
  | invalid (memory : ParseMemory)
  | next (state : σ) (memory : ParseMemory)
  | leave (state : σ) (memory : ParseMemory)

/-- A loop over the buffer: `-1`, or the new marker and the state to store. -/
inductive LoopEnd (σ : Type) where
  | invalid
  | stopped (marker : Nat) (state : σ) (memory : ParseMemory)

namespace ParseMemory

/-- `slayer_http_request_parse_init`. The blocks from `apr_palloc` hold `junk`. -/
def requestParseInit (uriSize : Nat) (junk : Nat → Nat → Byte) : ParseMemory where
  requestState := .start
  methodString := List.replicate 6 0
  methodSize := 0
  uriDataSize := uriSize
  uriData := List.replicate (uriSize + 1) 0
  uriEnd := 0
  method := .get
  version := .http10
  headerState := .start
  buffer := (List.range uriSize).map (junk 0)
  bufferSize := uriSize
  bufferMarker := none
  headers := []
  headerName := (List.range (uriSize + 1)).map (junk 1)
  headerNameSize := 0
  headerValue := (List.range (uriSize + 1)).map (junk 2)
  headerValueSize := 0
  headerBytesRead := 0

/-! ## The request line -/

def putMethod (memory : ParseMemory) (c : Byte) : Traced ParseMemory ParseMemory := do
  let methodString ← store memory.methodString memory.methodSize c
  return { memory with methodString, methodSize := memory.methodSize + 1 }

def putUri (memory : ParseMemory) (c : Byte) : Traced ParseMemory ParseMemory := do
  let uriData ← store memory.uriData memory.uriEnd c
  return { memory with uriData, uriEnd := memory.uriEnd + 1 }

/-- The `memcmp` behind the method, and the method it stands for. -/
def matchMethod (memory : ParseMemory) (name : Bytes) (method : HttpMethod) :
    Traced ParseMemory (Switch RequestState) := do
  let front ← loadFront memory.methodString name.length
  return if front = name then .next .wsBeforeUri { memory with method } else .invalid memory

/-- Expect one byte of the protocol. -/
def expectByte (memory : ParseMemory) (c expected : Byte) (state : RequestState) :
    Switch RequestState :=
  if c = expected then .next state memory else .invalid memory

/-- The switch of `slayer_http_request_line_parse`. -/
def requestLineByte (state : RequestState) (memory : ParseMemory) (c : Byte) :
    Traced ParseMemory (Switch RequestState) :=
  match state with
  | .start =>
      if c ≠ ch 'G' ∧ c ≠ ch 'P' then pure (.invalid memory)
      else do
        let memory ← memory.putMethod c
        return .next .method memory
  | .method =>
      if memory.methodSize > 5 then pure (.invalid memory)
      else if c = ch ' ' then
        if memory.methodSize = 3 then memory.matchMethod (bytes "GET") .get
        else if memory.methodSize = 4 then memory.matchMethod (bytes "POST") .post
        else pure (.invalid memory)
      else do
        let memory ← memory.putMethod c
        return .next .method memory
  | .wsBeforeUri =>
      if c = ch ' ' then pure (.next .wsBeforeUri memory)
      else if c = ch '/' then do
        let memory ← memory.putUri c
        return .next .uri memory
      else pure (.invalid memory)
  | .uri =>
      if memory.uriEnd ≥ memory.uriDataSize then pure (.invalid memory)
      else if c = ch ' ' then pure (.next .wsBeforeProtocol memory)
      else if c = 0 then pure (.invalid memory)
      else do
        let memory ← memory.putUri c
        return .next .uri memory
  | .wsBeforeProtocol =>
      if c = ch ' ' then pure (.next .wsBeforeProtocol memory)
      else if c = ch 'H' then pure (.next .protocolHt memory)
      else pure (.invalid memory)
  | .protocolHt => pure (memory.expectByte c (ch 'T') .protocolHtt)
  | .protocolHtt => pure (memory.expectByte c (ch 'T') .protocolHttp)
  | .protocolHttp => pure (memory.expectByte c (ch 'P') .protocolHttpSlash)
  | .protocolHttpSlash => pure (memory.expectByte c (ch '/') .protocolHttpMajor)
  | .protocolHttpMajor => pure (memory.expectByte c (ch '1') .protocolHttpMajorDot)
  | .protocolHttpMajorDot => pure (memory.expectByte c (ch '.') .protocolHttpMajorDotMinor)
  | .protocolHttpMajorDotMinor =>
      if c = ch '0' then pure (.next .doneCr { memory with version := .http10 })
      else if c = ch '1' then pure (.next .doneCr { memory with version := .http11 })
      else pure (.invalid memory)
  | .doneCr =>
      if c = 10 then pure (.leave .done memory)
      else if c = 13 then pure (.next .doneLf memory)
      else pure (.invalid memory)
  | .doneLf => if c = 10 then pure (.leave .done memory) else pure (.invalid memory)
  | .done => pure (.invalid memory)

/-! ## The header section -/

/-- How much of a value is left without the blanks at its end. -/
def trim (block : Bytes) : Nat → Traced ParseMemory Nat
  | 0 => pure 0
  | size + 1 => do
      let c ← load block size
      if isBlank c then trim block size else return size + 1

/-- `slayer_http_header_append`. -/
def headerAppend (memory : ParseMemory) : Traced ParseMemory ParseMemory :=
  if memory.headerNameSize = 0 then pure memory
  else do
    let headerName ← store memory.headerName memory.headerNameSize 0
    let size ← trim memory.headerValue memory.headerValueSize
    let headerValue ← store memory.headerValue size 0
    let name ← strdup headerName
    let value ← strdup headerValue
    return { memory with
      headers := memory.headers ++ [⟨name, value⟩]
      headerName
      headerNameSize := 0
      headerValue
      headerValueSize := 0 }

/-- Store a byte of a header name. -/
def storeName (memory : ParseMemory) (c : Byte) : Traced ParseMemory (Switch HeaderState) :=
  if memory.headerNameSize ≥ memory.uriDataSize then pure (.invalid memory)
  else do
    let headerName ← store memory.headerName memory.headerNameSize c
    return .next .name { memory with headerName, headerNameSize := memory.headerNameSize + 1 }

/-- Store a byte of a header value and go on in `state`. -/
def storeValue (memory : ParseMemory) (c : Byte) (state : HeaderState) :
    Traced ParseMemory (Switch HeaderState) :=
  if memory.headerValueSize ≥ memory.uriDataSize then pure (.invalid memory)
  else do
    let headerValue ← store memory.headerValue memory.headerValueSize c
    return .next state { memory with headerValue, headerValueSize := memory.headerValueSize + 1 }

/-- A carriage return or a newline behind a header. -/
def endHeader (memory : ParseMemory) (c : Byte) : Traced ParseMemory (Switch HeaderState) := do
  let memory ← memory.headerAppend
  return if c = 13 then .next .doneLf memory else .leave .start memory

/-- The switch of `slayer_http_request_header_parse`. -/
def headerSwitch (state : HeaderState) (memory : ParseMemory) (c : Byte) :
    Traced ParseMemory (Switch HeaderState) :=
  match state with
  | .start =>
      if c = 13 then pure (.next .startLf memory)
      else if c = 10 then pure (.leave .done memory)
      else if checkHeader c then memory.storeName c
      else pure (.invalid memory)
  | .startLf => if c = 10 then pure (.leave .done memory) else pure (.invalid memory)
  | .name =>
      if checkHeader c then memory.storeName c
      else if c = ch ':' then pure (.next .spaceBeforeValue memory)
      else if c = 13 ∨ c = 10 then memory.endHeader c
      else pure (.invalid memory)
  | .spaceBeforeValue =>
      if isBlank c then pure (.next .spaceBeforeValue memory)
      else if c = 13 ∨ c = 10 then memory.endHeader c
      else memory.storeValue c .value
  | .value =>
      if isBlank c then memory.storeValue c .spaceAfterValue
      else if c = 13 ∨ c = 10 then memory.endHeader c
      else memory.storeValue c .value
  | .spaceAfterValue =>
      if isBlank c then memory.storeValue c .spaceAfterValue
      else if c = 13 ∨ c = 10 then memory.endHeader c
      else memory.storeValue c .value
  | .doneLf => if c = 10 then pure (.leave .start memory) else pure (.invalid memory)
  | .done => pure (.next .done memory)

/-- The body of the loop: every byte counts against the limit first. -/
def requestHeaderByte (state : HeaderState) (memory : ParseMemory) (c : Byte) :
    Traced ParseMemory (Switch HeaderState) :=
  let memory := { memory with headerBytesRead := memory.headerBytesRead + 1 }
  if memory.headerBytesRead > maxHeaderBytes then pure (.invalid memory)
  else headerSwitch state memory c

/-! ## One receive -/

/-- The loop from `p` on, with `left` bytes in front of it. -/
def byteLoop {σ : Type} (body : σ → ParseMemory → Byte → Traced ParseMemory (Switch σ)) :
    Nat → Nat → σ → ParseMemory → Traced ParseMemory (LoopEnd σ)
  | 0, p, state, memory => pure (.stopped p state memory)
  | left + 1, p, state, memory => do
      let c ← load memory.buffer p
      match ← body state memory c with
      | .invalid memory => do
          pass memory
          return .invalid
      | .next state memory => do
          pass memory
          byteLoop body left (p + 1) state memory
      | .leave state memory => do
          pass memory
          return .stopped (p + 1) state memory

/-- `slayer_http_request_line_parse`; `none` is its `-1`. -/
def requestLineParse (memory : ParseMemory) : Traced ParseMemory (Option ParseMemory) :=
  match memory.bufferMarker with
  | none => fault
  | some marker => do
      match ← byteLoop requestLineByte (memory.bufferSize - marker) marker memory.requestState
        memory with
      | .invalid => return none
      | .stopped p state memory => do
          let memory := { memory with bufferMarker := some p, requestState := state }
          pass memory
          return some memory

/-- `slayer_http_request_header_parse`; `none` is its `-1`. -/
def requestHeaderParse (memory : ParseMemory) : Traced ParseMemory (Option ParseMemory) :=
  match memory.bufferMarker with
  | none => fault
  | some marker => do
      match ← byteLoop requestHeaderByte (memory.bufferSize - marker) marker memory.headerState
        memory with
      | .invalid => return none
      | .stopped p state memory => do
          let memory := { memory with bufferMarker := some p, headerState := state }
          pass memory
          return some memory

/-- `buffer_marker == NULL || buffer_marker >= buffer + buffer_size`. -/
def usedUp (memory : ParseMemory) : Bool :=
  match memory.bufferMarker with
  | none => true
  | some marker => memory.bufferSize ≤ marker

/-- The `do … while` of `request_parse`; every round but the first has a byte to read. -/
def headerRounds : Nat → ParseMemory → Traced ParseMemory (Option ParseMemory)
  | 0, memory => pure (some memory)
  | fuel + 1, memory => do
      match ← memory.requestHeaderParse with
      | none => return none
      | some memory =>
          if !memory.usedUp ∧ memory.headerState ≠ .done then headerRounds fuel memory
          else return some memory

/-- The receive of `request_parse`. One that brings nothing ends the connection. -/
def receive (memory : ParseMemory) (received : Bytes) :
    Traced ParseMemory (Option ParseMemory) := do
  let memory :=
    if memory.requestState ≠ .done then { memory with headerBytesRead := 0 } else memory
  let buffer ← storeFront memory.buffer received
  if received = [] then return none
  else
    let memory := { memory with buffer, bufferSize := received.length, bufferMarker := some 0 }
    pass memory
    return some memory

/-- `request_parse` behind its receive. -/
def parseBuffer (memory : ParseMemory) : Traced ParseMemory (Option ParseMemory) := do
  let line ←
    (if memory.requestState ≠ .done then memory.requestLineParse else pure (some memory))
  match line with
  | none => return none
  | some memory =>
      if memory.requestState = .done then
        headerRounds (memory.bufferSize - memory.bufferMarker.getD 0 + 1) memory
      else return some memory

/-- `request_parse`; `none` is its `-1`. -/
def requestParse (memory : ParseMemory) (received : Bytes) :
    Traced ParseMemory (Option ParseMemory) := do
  let filled ← (if memory.usedUp then memory.receive received else pure (some memory))
  match filled with
  | none => return none
  | some memory => memory.parseBuffer

/-- `request_parse` once per receive, until it returns `-1` or the headers are
complete. -/
def runReceives : ParseMemory → List Bytes → Traced ParseMemory (Option ParseMemory)
  | memory, [] => do
      pass memory
      return some memory
  | memory, received :: rest => do
      pass memory
      match ← memory.requestParse received with
      | none => return none
      | some memory =>
          if memory.headerState = .done then return some memory else runReceives memory rest

end ParseMemory

end DbSlayer.Http
