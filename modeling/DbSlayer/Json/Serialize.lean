import DbSlayer.Json.Value

/-! # The writers of `serializejson.c` and `json2xml.c`

A writer appends to a bucket brigade that is flattened at the end; the model
returns the bytes. Both writers walk the level-0 chain of an object, and both
test the `unsigned int` count of its nodes before they do.
-/

namespace DbSlayer.Json

variable {δ : Type} [CDouble δ]

/-- Whether the `node_count` of a table with these entries is zero. -/
def nodeCountZero (entries : Entries δ) : Bool := entries.length % 2 ^ 32 = 0

/-- A byte of `hex`: lower-case digits. -/
def hexLower (n : Nat) : Byte := UInt8.ofNat (if n < 10 then 48 + n else 87 + n)

/-- A byte of `hex`: upper-case digits. -/
def hexUpper (n : Nat) : Byte := UInt8.ofNat (if n < 10 then 48 + n else 55 + n)

/-! ## JSON -/

/-- The bytes that `json_string_serialize` writes for one byte. -/
def jsonEscape (c : Byte) : Bytes :=
  if c = 10 then bytes "\\n"
  else if c = 13 then bytes "\\r"
  else if c = 9 then bytes "\\t"
  else if c = 8 then bytes "\\b"
  else if c = 12 then bytes "\\f"
  else if c = ch '\\' then bytes "\\\\"
  else if c = ch '/' then bytes "\\/"
  else if c = ch '"' then bytes "\\\""
  else if c < 0x20 then bytes "\\u00" ++ [hexLower (c.toNat / 16), hexLower (c.toNat % 16)]
  else [c]

def jsonStringSerialize (value : Bytes) : Bytes :=
  ch '"' :: ((cstr value).flatMap jsonEscape ++ [ch '"'])

mutual

def jsonSerializeInternal : JsonValue δ → Bytes
  | .string value => jsonStringSerialize value
  | .long number => printLong number
  | .longlong number => printLong number
  | .double number => CDouble.printG16 number
  | .boolean value => if value ≠ 0 then bytes "true" else bytes "false"
  | .null => bytes "null"
  | .object entries =>
      if nodeCountZero entries then bytes "\x7b\x7d" else bytes "\x7b" ++ jsonMembersSerialize entries
  | .array [] => bytes "[]"
  | .array (element :: rest) =>
      bytes "[" ++ jsonSerializeInternal element ++ jsonElementsSerialize rest

/-- The loop of `json_array_serialize` behind the first element. -/
def jsonElementsSerialize : List (JsonValue δ) → Bytes
  | [] => bytes "]"
  | element :: rest =>
      bytes " , " ++ jsonSerializeInternal element ++ jsonElementsSerialize rest

/-- The loop of `json_object_serialize`. -/
def jsonMembersSerialize : List (Bytes × JsonValue δ) → Bytes
  | [] => []
  | (key, value) :: rest =>
      jsonStringSerialize key ++ bytes " : " ++ jsonSerializeInternal value ++
        (if rest.isEmpty then bytes "\x7d" else bytes " , ") ++ jsonMembersSerialize rest

end

/-- `json_serialize`. -/
def jsonSerialize (json : JsonValue δ) : Bytes := jsonSerializeInternal json

/-! ## XML -/

/-- The bytes that `xml_string_serialize` writes for one byte. -/
def xmlEscape (c : Byte) : Bytes :=
  if c = ch '&' then bytes "&amp;"
  else if c = ch '<' then bytes "&lt;"
  else if c = ch '>' then bytes "&gt;"
  else if c = 9 ∨ c = 10 ∨ c = 13 then
    bytes "&#x" ++ [hexUpper (c.toNat / 16), hexUpper (c.toNat % 16)] ++ bytes ";"
  else if c < 0x20 then []
  else [c]

def xmlStringSerialize (value : Bytes) : Bytes := (cstr value).flatMap xmlEscape

mutual

def xmlSerializeInternal : JsonValue δ → Bytes
  | .string value => xmlStringSerialize value
  | .long number => printLong number
  | .longlong number => printLong number
  | .double number => CDouble.printG number
  | .boolean value => if value ≠ 0 then bytes "true" else bytes "false"
  | .null => bytes "null"
  | .object entries =>
      if nodeCountZero entries then bytes "<object></object>"
      else bytes "<object>" ++ xmlMembersSerialize entries ++ bytes "</object>"
  | .array [] => bytes "[]"
  | .array (element :: rest) =>
      bytes "<array>" ++ xmlElementsSerialize (element :: rest) ++ bytes "</array>"

/-- The loop of `xml_array_serialize`. -/
def xmlElementsSerialize : List (JsonValue δ) → Bytes
  | [] => []
  | element :: rest =>
      bytes "<item>" ++ xmlSerializeInternal element ++ bytes "</item>" ++
        xmlElementsSerialize rest

/-- The loop of `xml_object_serialize`. -/
def xmlMembersSerialize : List (Bytes × JsonValue δ) → Bytes
  | [] => []
  | (key, value) :: rest =>
      bytes "<key>" ++ xmlStringSerialize key ++ bytes "</key>" ++
        (bytes "<value>" ++ xmlSerializeInternal value ++ bytes "</value>") ++
        xmlMembersSerialize rest

end

/-- `xml_serialize`. -/
def xmlSerialize (json : JsonValue δ) : Bytes := xmlSerializeInternal json

end DbSlayer.Json
