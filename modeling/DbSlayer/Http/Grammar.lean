import DbSlayer.Http.Parse

/-! # The grammar of requests

The request head that the parser is meant to accept, stated without its states,
and what is to be stored for each part of it.
-/

namespace DbSlayer.Http

/-- A newline, with or without a carriage return. -/
def LineEnd (text : Bytes) : Prop := text = [13, 10] ∨ text = [10]

/-- One or more spaces. -/
def Spaces (text : Bytes) : Prop := text ≠ [] ∧ ∀ c ∈ text, c = ch ' '

/-- Letters, digits, dot, underscore and minus. -/
def isNameByte (c : Byte) : Bool :=
  (ch 'A' ≤ c && c ≤ ch 'Z') || (ch 'a' ≤ c && c ≤ ch 'z') || (ch '0' ≤ c && c ≤ ch '9') ||
    c = ch '.' || c = ch '_' || c = ch '-'

/-- The slash-led target of a request, shorter than the buffer for it. -/
def IsUri (uriSize : Nat) (uri : Bytes) : Prop :=
  uri.head? = some (ch '/') ∧ (∀ c ∈ uri, c ≠ ch ' ' ∧ c ≠ 0) ∧ uri.length + 1 ≤ uriSize

/-- A header line: a name and, behind a colon, a text. -/
structure HeaderLine where
  name : Bytes
  text : Option Bytes
  deriving DecidableEq, Repr

namespace HeaderLine

structure Valid (line : HeaderLine) : Prop where
  name_ne_nil : line.name ≠ []
  name_bytes : ∀ c ∈ line.name, isNameByte c = true
  text_bytes : ∀ text ∈ line.text, ∀ c ∈ text, c ≠ 13 ∧ c ≠ 10

/-- The bytes of a line in front of its end. -/
def body (line : HeaderLine) : Bytes :=
  line.name ++ match line.text with
    | none => []
    | some text => ch ':' :: text

/-- The text without the spaces and tabs around it. -/
def trimmed (line : HeaderLine) : Bytes :=
  ((line.text.getD []).dropWhile isBlank).rdropWhile isBlank

/-- What is stored for a line: both parts are C strings. -/
def stored (line : HeaderLine) : Header := ⟨line.name, cstr line.trimmed⟩

end HeaderLine

/-- Header lines, each with its own kind of line end. -/
inductive HeaderLines : List HeaderLine → Bytes → Prop
  | nil : HeaderLines [] []
  | append {lines : List HeaderLine} {line : HeaderLine} {text eol : Bytes} :
      HeaderLines lines text → line.Valid → LineEnd eol →
      HeaderLines (lines ++ [line]) (text ++ (line.body ++ eol))

/-- The parts of a request head. -/
structure Request where
  method : HttpMethod
  uri : Bytes
  version : HttpVersion
  lines : List HeaderLine

def methodText : HttpMethod → Bytes
  | .get => bytes "GET"
  | .post => bytes "POST"

def versionText : HttpVersion → Bytes
  | .http10 => bytes "HTTP/1.0"
  | .http11 => bytes "HTTP/1.1"

/-- The request line, its end included. -/
inductive RequestLine (uriSize : Nat) (method : HttpMethod) (uri : Bytes) (version : HttpVersion) :
    Bytes → Prop
  | mk {before behind eol : Bytes} : Spaces before → IsUri uriSize uri → Spaces behind →
      LineEnd eol → RequestLine uriSize method uri version
        (methodText method ++ (before ++ (uri ++ (behind ++ (versionText version ++ eol)))))

/-- A whole request head: everything behind the request line counts against the
limit, the empty line at the end included. -/
inductive RequestHead (uriSize : Nat) (request : Request) : Bytes → Prop
  | mk {line headers eol : Bytes} :
      RequestLine uriSize request.method request.uri request.version line →
      HeaderLines request.lines headers → LineEnd eol →
      (headers ++ eol).length ≤ maxHeaderBytes →
      RequestHead uriSize request (line ++ (headers ++ eol))

/-- The fields hold what the request says: a header for every line, in order,
with the trimmed text as its value when no zero byte cuts it, and a lookup that
answers with the first line of its name in any letter case. -/
structure Extracted (request : Request) (parse : RequestParse) : Prop where
  method : parse.method = request.method
  uri : parse.uriData = request.uri
  version : parse.version = request.version
  headers : parse.headers = request.lines.map HeaderLine.stored
  values : ∀ line ∈ request.lines, NulFree (line.text.getD []) →
    line.stored = ⟨line.name, line.trimmed⟩
  lookup : ∀ name, headerGet parse name =
    (request.lines.find? fun line => strcasecmp line.name name = 0).map
      fun line => line.stored.value

end DbSlayer.Http
