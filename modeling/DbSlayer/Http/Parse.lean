import DbSlayer.CLib.Strings
import Mathlib.Data.List.DropRight

/-! # The HTTP parser of `slayer_http_parse.c` and `request_parse`

The request line and the header section have one state machine each, over one
buffer that a receive fills. A loop of the source leaves by falling off the end
of the buffer, by a `goto` behind the byte it is at, or by returning `-1`. The
model keeps the bytes between `buffer_marker` and the end of the received data;
there are none while the marker is null.
-/

namespace DbSlayer.Http

/-- `PARSE_REQUEST_STATE`. -/
inductive RequestState where
  | start | wsBeforeUri | method | uri | wsBeforeProtocol | protocolHt | protocolHtt
  | protocolHttp | protocolHttpSlash | protocolHttpMajor | protocolHttpMajorDot
  | protocolHttpMajorDotMinor | doneCr | doneLf | done
  deriving DecidableEq, Repr

/-- `PARSE_HEADER_STATE`. -/
inductive HeaderState where
  | start | name | startLf | spaceBeforeValue | value | spaceAfterValue | doneLf | done
  deriving DecidableEq, Repr

inductive HttpMethod where
  | get | post
  deriving DecidableEq, Repr

inductive HttpVersion where
  | http10 | http11
  deriving DecidableEq, Repr

/-- `slayer_http_header_t`, without the link. -/
structure Header where
  name : Bytes
  value : Bytes
  deriving DecidableEq, Repr

/-- `slayer_http_request_parse_t` without its buffer. The sizes of the method,
of the URI and of the partial header are the lengths of their bytes. -/
structure RequestParse where
  requestState : RequestState
  methodString : Bytes
  uriDataSize : Nat
  uriData : Bytes
  method : HttpMethod
  version : HttpVersion
  headerState : HeaderState
  headers : List Header
  headerName : Bytes
  headerValue : Bytes
  headerBytesRead : Nat
  deriving DecidableEq, Repr

/-- `MAX_HEADER_BYTES`. -/
def maxHeaderBytes : Nat := 32768

/-- `slayer_http_request_parse_init`. -/
def requestParseInit (uriSize : Nat) : RequestParse where
  requestState := .start
  methodString := []
  uriDataSize := uriSize
  uriData := []
  method := .get
  version := .http10
  headerState := .start
  headers := []
  headerName := []
  headerValue := []
  headerBytesRead := 0

/-- How a loop body treats one byte: `next` is a `break` out of the switch,
`leave` a `goto` out of the loop, `invalid` a return of `-1`. -/
inductive ByteStep where
  | invalid
  | next (parse : RequestParse)
  | leave (parse : RequestParse)

/-! ## The request line -/

/-- Expect one byte of the protocol. -/
def expectByte (parse : RequestParse) (c expected : Byte) (state : RequestState) : ByteStep :=
  if c = expected then .next { parse with requestState := state } else .invalid

/-- The switch of `slayer_http_request_line_parse`. -/
def requestLineByte (parse : RequestParse) (c : Byte) : ByteStep :=
  match parse.requestState with
  | .start =>
      if c ≠ ch 'G' ∧ c ≠ ch 'P' then .invalid
      else .next { parse with
        methodString := parse.methodString ++ [c], requestState := .method }
  | .method =>
      if parse.methodString.length > 5 then .invalid
      else if c = ch ' ' then
        if parse.methodString.length = 3 then
          if parse.methodString = bytes "GET" then
            .next { parse with method := .get, requestState := .wsBeforeUri }
          else .invalid
        else if parse.methodString.length = 4 then
          if parse.methodString = bytes "POST" then
            .next { parse with method := .post, requestState := .wsBeforeUri }
          else .invalid
        else .invalid
      else .next { parse with methodString := parse.methodString ++ [c] }
  | .wsBeforeUri =>
      if c = ch ' ' then .next parse
      else if c = ch '/' then
        .next { parse with uriData := parse.uriData ++ [c], requestState := .uri }
      else .invalid
  | .uri =>
      if parse.uriData.length ≥ parse.uriDataSize then .invalid
      else if c = ch ' ' then .next { parse with requestState := .wsBeforeProtocol }
      else if c = 0 then .invalid
      else .next { parse with uriData := parse.uriData ++ [c] }
  | .wsBeforeProtocol =>
      if c = ch ' ' then .next parse
      else if c = ch 'H' then .next { parse with requestState := .protocolHt }
      else .invalid
  | .protocolHt => expectByte parse c (ch 'T') .protocolHtt
  | .protocolHtt => expectByte parse c (ch 'T') .protocolHttp
  | .protocolHttp => expectByte parse c (ch 'P') .protocolHttpSlash
  | .protocolHttpSlash => expectByte parse c (ch '/') .protocolHttpMajor
  | .protocolHttpMajor => expectByte parse c (ch '1') .protocolHttpMajorDot
  | .protocolHttpMajorDot => expectByte parse c (ch '.') .protocolHttpMajorDotMinor
  | .protocolHttpMajorDotMinor =>
      if c = ch '0' then .next { parse with version := .http10, requestState := .doneCr }
      else if c = ch '1' then .next { parse with version := .http11, requestState := .doneCr }
      else .invalid
  | .doneCr =>
      if c = 10 then .leave { parse with requestState := .done }
      else if c = 13 then .next { parse with requestState := .doneLf }
      else .invalid
  | .doneLf => if c = 10 then .leave { parse with requestState := .done } else .invalid
  | .done => .invalid

/-! ## The header section -/

def checkHeader (x : Byte) : Bool :=
  (ch 'a' ≤ tolower x && tolower x ≤ ch 'z') || x = ch '_' || x = ch '-' || x = ch '.' ||
    isdigit x

/-- A space or a tab. -/
def isBlank (c : Byte) : Bool := c = ch ' ' || c = 9

/-- `slayer_http_header_append`. -/
def headerAppend (parse : RequestParse) : RequestParse :=
  if parse.headerName.length = 0 then parse
  else { parse with
    headers := parse.headers ++
      [⟨cstr parse.headerName, cstr (parse.headerValue.rdropWhile isBlank)⟩]
    headerName := []
    headerValue := [] }

/-- Store a byte of a header name. -/
def storeName (parse : RequestParse) (c : Byte) : ByteStep :=
  if parse.headerName.length ≥ parse.uriDataSize then .invalid
  else .next { parse with headerName := parse.headerName ++ [c], headerState := .name }

/-- Store a byte of a header value and go on in `state`. -/
def storeValue (parse : RequestParse) (c : Byte) (state : HeaderState) : ByteStep :=
  if parse.headerValue.length ≥ parse.uriDataSize then .invalid
  else .next { parse with headerValue := parse.headerValue ++ [c], headerState := state }

/-- A carriage return or a newline behind a header. -/
def endHeader (parse : RequestParse) (c : Byte) : ByteStep :=
  if c = 13 then .next { headerAppend parse with headerState := .doneLf }
  else .leave { headerAppend parse with headerState := .start }

/-- The switch of `slayer_http_request_header_parse`. -/
def headerSwitch (parse : RequestParse) (c : Byte) : ByteStep :=
  match parse.headerState with
  | .start =>
      if c = 13 then .next { parse with headerState := .startLf }
      else if c = 10 then .leave { parse with headerState := .done }
      else if checkHeader c then storeName parse c
      else .invalid
  | .startLf => if c = 10 then .leave { parse with headerState := .done } else .invalid
  | .name =>
      if checkHeader c then storeName parse c
      else if c = ch ':' then .next { parse with headerState := .spaceBeforeValue }
      else if c = 13 ∨ c = 10 then endHeader parse c
      else .invalid
  | .spaceBeforeValue =>
      if isBlank c then .next parse
      else if c = 13 ∨ c = 10 then endHeader parse c
      else storeValue parse c .value
  | .value =>
      if isBlank c then storeValue parse c .spaceAfterValue
      else if c = 13 ∨ c = 10 then endHeader parse c
      else storeValue parse c .value
  | .spaceAfterValue =>
      if isBlank c then storeValue parse c .spaceAfterValue
      else if c = 13 ∨ c = 10 then endHeader parse c
      else storeValue parse c .value
  | .doneLf => if c = 10 then .leave { parse with headerState := .start } else .invalid
  | .done => .next parse

/-- The body of the loop: every byte counts against the limit first. -/
def requestHeaderByte (parse : RequestParse) (c : Byte) : ByteStep :=
  if parse.headerBytesRead + 1 > maxHeaderBytes then .invalid
  else headerSwitch { parse with headerBytesRead := parse.headerBytesRead + 1 } c

/-- `slayer_http_header_get`. -/
def headerGet (parse : RequestParse) (name : Bytes) : Option Bytes :=
  (parse.headers.find? fun header => strcasecmp header.name name = 0).map Header.value

/-! ## One receive -/

/-- A loop over the buffer: `-1` at the byte in front of `unread`, or the fields
and what is behind the marker. -/
inductive LoopResult where
  | invalid (unread : Bytes)
  | stopped (parse : RequestParse) (unread : Bytes)

def byteLoop (body : RequestParse → Byte → ByteStep) : RequestParse → Bytes → LoopResult
  | parse, [] => .stopped parse []
  | parse, c :: rest =>
      match body parse c with
      | .invalid => .invalid rest
      | .next parse => byteLoop body parse rest
      | .leave parse => .stopped parse rest

def requestLineParse : RequestParse → Bytes → LoopResult := byteLoop requestLineByte

def requestHeaderParse : RequestParse → Bytes → LoopResult := byteLoop requestHeaderByte

/-- The `do … while` of `request_parse`; every round but the first has a byte to read. -/
def headerRounds : Nat → RequestParse → Bytes → LoopResult
  | 0, parse, unread => .stopped parse unread
  | fuel + 1, parse, unread =>
      match requestHeaderParse parse unread with
      | .invalid unread => .invalid unread
      | .stopped parse unread =>
          if unread ≠ [] ∧ parse.headerState ≠ .done then headerRounds fuel parse unread
          else .stopped parse unread

/-- The parser with its buffer. `bufferSize` is what the next receive is offered. -/
structure ParseBuffer where
  parse : RequestParse
  bufferSize : Nat
  unread : Bytes
  deriving DecidableEq, Repr

/-- What `request_parse` comes to: `-1` at a byte of the buffer, or the parser. -/
inductive ParseStatus where
  | invalid (unread : Bytes)
  | parsed (buffer : ParseBuffer)
  deriving DecidableEq, Repr

/-- `request_parse` behind its receive. -/
def requestParseBuffer (buffer : ParseBuffer) : ParseStatus :=
  let line : LoopResult :=
    if buffer.parse.requestState ≠ .done then requestLineParse buffer.parse buffer.unread
    else .stopped buffer.parse buffer.unread
  let result : LoopResult :=
    match line with
    | .invalid unread => .invalid unread
    | .stopped parse unread =>
        if parse.requestState = .done then headerRounds (unread.length + 1) parse unread
        else .stopped parse unread
  match result with
  | .invalid unread => .invalid unread
  | .stopped parse unread => .parsed { buffer with parse, unread }

/-- `request_parse`. The receive happens when the buffer is used up. -/
def requestParse (buffer : ParseBuffer) (received : Bytes) : ParseStatus :=
  if buffer.unread = [] then
    let parse :=
      if buffer.parse.requestState ≠ .done then { buffer.parse with headerBytesRead := 0 }
      else buffer.parse
    if received = [] then .invalid []
    else requestParseBuffer ⟨parse, received.length, received⟩
  else requestParseBuffer buffer

end DbSlayer.Http
