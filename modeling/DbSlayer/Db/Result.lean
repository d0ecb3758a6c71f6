import DbSlayer.Db.Mysql
import DbSlayer.Json.Value

/-! # Result sets as JSON

`dbresult2json` reads a stored result set and makes no call on a connection.
-/

namespace DbSlayer.Db

open Json

variable {δ : Type} [CDouble δ]

/-- The names of the types that are reported by their own name. -/
def plainTypeName : FieldType → String
  | .tiny => "MYSQL_TYPE_TINY"
  | .short => "MYSQL_TYPE_SHORT"
  | .long => "MYSQL_TYPE_LONG"
  | .int24 => "MYSQL_TYPE_INT24"
  | .decimal => "MYSQL_TYPE_DECIMAL"
  | .newdecimal => "MYSQL_TYPE_NEWDECIMAL"
  | .double => "MYSQL_TYPE_DOUBLE"
  | .float => "MYSQL_TYPE_FLOAT"
  | .longlong => "MYSQL_TYPE_LONGLONG"
  | .bit => "MYSQL_TYPE_BIT"
  | .timestamp => "MYSQL_TYPE_TIMESTAMP"
  | .date => "MYSQL_TYPE_DATE"
  | .time => "MYSQL_TYPE_TIME"
  | .datetime => "MYSQL_TYPE_DATETIME"
  | .year => "MYSQL_TYPE_YEAR"
  | .string => "MYSQL_TYPE_STRING"
  | .varString => "MYSQL_TYPE_VAR_STRING"
  | .newdate => "MYSQL_TYPE_NEWDATE"
  | .varchar => "MYSQL_TYPE_VARCHAR"
  | .blob => "MYSQL_TYPE_BLOB"
  | .tinyBlob => "MYSQL_TYPE_TINY_BLOB"
  | .mediumBlob => "MYSQL_TYPE_MEDIUM_BLOB"
  | .longBlob => "MYSQL_TYPE_LONG_BLOB"
  | .set => "MYSQL_TYPE_SET"
  | .enum => "MYSQL_TYPE_ENUM"
  | .geometry => "MYSQL_TYPE_GEOMETRY"
  | .null => "MYSQL_TYPE_NULL"
  | .other _ => "MYSQL_TYPE_UNKNOWN"

/-- The four types that the character set `63` turns into text. -/
def isBlob : FieldType → Bool
  | .blob | .tinyBlob | .mediumBlob | .longBlob => true
  | _ => false

/-- The first switch of `dbresult2json`. -/
def columnType (field : Field) : JsonValue δ :=
  .string (bytes (if isBlob field.type ∧ field.charsetnr = 63 then "MYSQL_TYPE_TEXT"
    else plainTypeName field.type))

/-- A cell, or null for a null pointer. -/
def cellOr (create : Bytes → JsonValue δ) : Option Bytes → JsonValue δ
  | none => .null
  | some text => create text

/-- The second switch of `dbresult2json`: what is appended to the row. A type
that the switch does not name appends nothing. -/
def rowCell (field : Field) (cell : Option Bytes) : List (JsonValue δ) :=
  match field.type with
  | .tiny | .short | .long | .int24 => [cellOr (fun text => .long (strtol text).1) cell]
  | .longlong => [cellOr (fun text => .longlong (strtol text).1) cell]
  | .decimal | .newdecimal | .double | .float =>
      [cellOr (fun text => .double (strtod δ text).1) cell]
  | .bit | .timestamp | .date | .time | .datetime | .year | .string | .varString | .newdate
  | .varchar => [cellOr jsonStringCreate cell]
  | .blob | .tinyBlob | .mediumBlob | .longBlob =>
      if field.charsetnr = 63 then [.null] else [cellOr jsonStringCreate cell]
  | .set | .enum | .geometry | .null => [.null]
  | .other _ => []

def rowValue (fields : List Field) (row : List (Option Bytes)) : JsonValue δ :=
  .array ((fields.zip row).flatMap fun pair => rowCell pair.1 pair.2)

def dbresult2json (result : ResultSet) : JsonValue δ :=
  .object (objectOf [
    (bytes "HEADER", .array (result.fields.map fun field => jsonStringCreate field.name)),
    (bytes "TYPES", .array (result.fields.map columnType)),
    (bytes "ROWS", .array (result.rows.map (rowValue result.fields)))])

end DbSlayer.Db
