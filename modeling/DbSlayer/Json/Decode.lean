import DbSlayer.Json.Value

/-! # The JSON decoder of `simplejson.c`

A position in the text is the list of bytes from `offset` up to `end`; the
byte at `end` is the terminator. A decoding function returns the value and the
position behind it, or `none` where the source returns a null pointer. The
recursion budget of `decodeJsonValue` is one more than `JSON_MAX_DEPTH`, which
the depth counter never lets it exhaust, and a member loop has one round for
every byte that is left.
-/

namespace DbSlayer.Json

variable {δ : Type} [CDouble δ]

/-- `JSON_MAX_DEPTH`. -/
def jsonMaxDepth : Nat := 64

/-- `json_string`: the unread part of the text and the nesting depth. -/
structure JsonString where
  offset : Bytes
  depth : Nat
  deriving DecidableEq, Repr

/-- `while (offset < end && isspace(*offset)) offset++`. -/
def JsonString.skipSpace (injson : JsonString) : JsonString :=
  { injson with offset := injson.offset.dropWhile isspace }

/-! ## Strings -/

/-- The loop of `slayer_hex2int`; `none` is its `-1`. The digit weights are
exact powers of sixteen in the source's floating arithmetic. -/
def slayerHex2intLoop : Bytes → Nat → Option Nat
  | [], result => some result
  | c :: rest, result =>
      if ch 'a' ≤ c ∧ c ≤ ch 'f' then
        slayerHex2intLoop rest (result + 16 ^ rest.length * (c.toNat - 97 + 10))
      else if ch 'A' ≤ c ∧ c ≤ ch 'F' then
        slayerHex2intLoop rest (result + 16 ^ rest.length * (c.toNat - 65 + 10))
      else if ch '0' ≤ c ∧ c ≤ ch '9' then
        slayerHex2intLoop rest (result + 16 ^ rest.length * (c.toNat - 48))
      else none

def slayerHex2int (code : Bytes) : Option Nat := slayerHex2intLoop (cstr code) 0

/-- One continuation byte: six bits of the code point. -/
def continuation (code shift : Nat) : Byte := UInt8.ofNat (0x80 + code / 2 ^ shift % 64)

/-- `slayer_escaped2utf8`, with the six-byte forms of the original UTF-8. -/
def slayerEscaped2utf8 (code : Nat) : Option Bytes :=
  if code > 0x7FFFFFFF then none
  else if code < 0x80 then some [UInt8.ofNat code]
  else if code < 0x800 then some [UInt8.ofNat (0xC0 + code / 2 ^ 6), continuation code 0]
  else if code < 0x10000 then
    some [UInt8.ofNat (0xE0 + code / 2 ^ 12), continuation code 6, continuation code 0]
  else if code < 0x200000 then
    some [UInt8.ofNat (0xF0 + code / 2 ^ 18), continuation code 12, continuation code 6,
      continuation code 0]
  else if code < 0x4000000 then
    some [UInt8.ofNat (0xF8 + code / 2 ^ 24), continuation code 18, continuation code 12,
      continuation code 6, continuation code 0]
  else
    some [UInt8.ofNat (0xFC + code / 2 ^ 30), continuation code 24, continuation code 18,
      continuation code 12, continuation code 6, continuation code 0]

/-- The letters the measuring pass accepts behind a backslash. -/
def isEscape (c : Byte) : Bool := c ∈ bytes "u\\/nrtfb\""

/-- What a one-letter escape stands for. -/
def escapeByte (c : Byte) : Option Byte :=
  if c = ch '\\' then some (ch '\\')
  else if c = ch '/' then some (ch '/')
  else if c = ch 'n' then some 10
  else if c = ch 'r' then some 13
  else if c = ch 't' then some 9
  else if c = ch 'f' then some 12
  else if c = ch 'b' then some 8
  else if c = ch '"' then some (ch '"')
  else none

/-- The measuring pass of `decode_json_string`: how far the closing quote is. -/
def measureString : Bytes → Option Nat
  | [] => none
  | c :: rest =>
      if c = ch '"' then some 0
      else if c = ch '\\' then
        match rest with
        | [] => none
        | e :: rest => if isEscape e then (measureString rest).map (· + 2) else none
      else (measureString rest).map (· + 1)

/-- The copying pass: the bytes written and the position behind the closing quote. -/
def copyString : Bytes → Option (Bytes × Bytes)
  | [] => none
  | c :: rest =>
      if c = ch '"' then some ([], rest)
      else if c = ch '\\' then
        match rest with
        | [] => none
        | e :: rest =>
            if e = ch 'u' then
              if strlen rest < 4 then none
              else
                match rest with
                | h₁ :: h₂ :: h₃ :: h₄ :: rest => do
                    let value ← slayerHex2int [h₁, h₂, h₃, h₄]
                    let encode ← slayerEscaped2utf8 value
                    let (out, left) ← copyString rest
                    return (cstr encode ++ out, left)
                | _ => none
            else do
              let byte ← escapeByte e
              let (out, left) ← copyString rest
              return (byte :: out, left)
      else do
        let (out, left) ← copyString rest
        return (c :: out, left)

/-- `decode_json_string` at a quote: the C string decoded and the position behind it. -/
def decodeJsonString (injson : JsonString) : Option (Bytes × JsonString) := do
  let text := injson.offset.drop 1
  let _ ← measureString text
  let (out, left) ← copyString text
  return (cstr out, { injson with offset := left })

/-! ## Literals and numbers -/

/-- Match a literal at the current position. -/
def decodeLiteral (literal : Bytes) (value : JsonValue δ) (injson : JsonString) :
    Option (JsonValue δ × JsonString) :=
  if literal.isPrefixOf injson.offset then
    some (value, { injson with offset := injson.offset.drop literal.length })
  else none

def decodeJsonBoolean (injson : JsonString) : Option (JsonValue δ × JsonString) :=
  match decodeLiteral (bytes "true") (.boolean 1) injson with
  | some result => some result
  | none => decodeLiteral (bytes "false") (.boolean 0) injson

def decodeJsonNull (injson : JsonString) : Option (JsonValue δ × JsonString) :=
  decodeLiteral (bytes "null") .null injson

/-- The scan that picks `strtod`: digits, behind an optional minus at the start. -/
def scanFloat (start : Bool) : Bytes → Bool
  | [] => false
  | c :: rest =>
      if isdigit c || (c = ch '-' && start) then scanFloat false rest
      else c = ch 'e' || c = ch 'E' || c = ch '.'

def decodeJsonNumber (injson : JsonString) : Option (JsonValue δ × JsonString) :=
  if scanFloat true injson.offset then
    let (value, consumed) := strtod δ injson.offset
    if consumed = 0 then none
    else some (.double value, { injson with offset := injson.offset.drop consumed })
  else
    let (value, consumed) := strtol injson.offset
    if consumed = 0 then none
    else some (.long value, { injson with offset := injson.offset.drop consumed })

/-! ## Containers -/

/-- A decoding function, as the containers call it for their members. -/
abbrev Decoder (α : Type) := JsonString → Option (α × JsonString)

section Containers

variable {σ : Type} (close : Byte) (step : σ → Decoder σ)

/-- The member loop of a container and its closure. A round reads what follows
a comma into the members collected so far. -/
def decodeRest : Nat → σ → Decoder σ
  | 0, _, _ => none
  | fuel + 1, members, injson =>
      match injson.offset with
      | [] => none
      | c :: rest =>
          if c = close then some (members, { injson with offset := rest })
          else
            match injson.skipSpace.offset with
            | [] => none
            | c :: rest =>
                if c = close then some (members, { injson with offset := rest })
                else if c = ch ',' then do
                  let (members, injson) ← step members { injson with offset := rest }
                  decodeRest fuel members injson
                else none

/-- A container from its opening bracket on: the empty form, or a first member
and the loop over the others. -/
def decodeContainer (empty : σ) (finish : σ → JsonValue δ) : Decoder (JsonValue δ) :=
  fun injson =>
    let injson := { injson with offset := injson.offset.drop 1 }.skipSpace
    match injson.offset with
    | [] => none
    | c :: rest =>
        if c = close then some (finish empty, { injson with offset := rest })
        else do
          let (members, injson) ← step empty injson
          let (members, injson) ← decodeRest close step (injson.offset.length + 1) members injson
          return (finish members, injson)

variable (decodeValue : Decoder (JsonValue δ))

/-- One element of an array. -/
def decodeElement (elements : List (JsonValue δ)) : Decoder (List (JsonValue δ)) :=
  fun injson => do
    let (element, injson) ← decodeValue injson
    return (elements ++ [element], injson)

def decodeJsonArray : Decoder (JsonValue δ) :=
  decodeContainer (ch ']') (decodeElement decodeValue) [] .array

/-- One member of an object: a name, a colon and a value, put into the table. -/
def decodeMember (entries : Entries δ) : Decoder (Entries δ) :=
  fun injson =>
    let injson := injson.skipSpace
    if injson.offset.head? ≠ some (ch '"') then none
    else do
      let (name, injson) ← decodeJsonString injson
      let injson := injson.skipSpace
      if injson.offset.head? ≠ some (ch ':') then none
      else do
        let injson := { injson with offset := injson.offset.drop 1 }.skipSpace
        let (value, injson) ← decodeValue injson
        return (objectPut entries name value, injson)

def decodeJsonObject : Decoder (JsonValue δ) :=
  decodeContainer (ch '}') (decodeMember decodeValue) [] .object

/-- The production that an opening bracket selects. -/
def decodeNested (c : Byte) : Decoder (JsonValue δ) :=
  if c = ch '[' then decodeJsonArray decodeValue else decodeJsonObject decodeValue

end Containers

/-- `decode_json_value`. -/
def decodeJsonValue : Nat → Decoder (JsonValue δ)
  | 0, _ => none
  | budget + 1, injson =>
      let injson := injson.skipSpace
      match injson.offset with
      | [] => none
      | c :: _ =>
          if c = ch '"' then do
            let (value, injson) ← decodeJsonString injson
            return (.string value, injson)
          else if c = ch '[' ∨ c = ch '{' then
            if injson.depth + 1 > jsonMaxDepth then none
            else do
              let deeper := { injson with depth := injson.depth + 1 }
              let (value, injson) ← decodeNested (decodeJsonValue budget) c deeper
              return (value, { injson with depth := injson.depth - 1 })
          else if c = ch 'n' then decodeJsonNull injson
          else if c = ch 't' ∨ c = ch 'f' then decodeJsonBoolean injson
          else if c = ch '-' ∨ isdigit c then decodeJsonNumber injson
          else none

/-- `decode_json`. The size is a C `int`, and callers pass the length of the
text, so that the terminator is at `end`. -/
def decodeJson (injson : Bytes) (injsonSize : Int32) : Option (JsonValue δ) := do
  let text := injson.take injsonSize.toInt.toNat
  let (out, rest) ← decodeJsonValue (jsonMaxDepth + 1) ⟨text, 0⟩
  if rest.skipSpace.offset = [] then some out else none

end DbSlayer.Json
