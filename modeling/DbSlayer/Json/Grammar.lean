import DbSlayer.Json.Decode

/-! # The grammar of the decoder

The texts the decoder is meant to accept, with the syntax tree each one has.
This is the declarative side: it says nothing about how a text is scanned.
Blanks may stand between any two tokens, and a container spends one unit of the
nesting allowance that its members share.
-/

namespace DbSlayer.Json

open Foundation

/-- What a text says. A number keeps its text, and members keep their order. -/
inductive Ast where
  | null
  | boolean (value : Bool)
  | string (content : Bytes)
  | number (text : Bytes)
  | array (elements : List Ast)
  | object (members : List (Bytes × Ast))

def Blank (s : Bytes) : Prop := ∀ c ∈ s, isspace c = true

def Digits (s : Bytes) : Prop := ∀ c ∈ s, isdigit c = true

/-! ## Tokens -/

/-- The value of a hexadecimal digit. -/
def hexDigit (c : Byte) : Nat :=
  if isdigit c then c.toNat - 48 else (tolower c).toNat - 87

/-- The value of the four digits of a `\u` escape. -/
def hexCode (h₁ h₂ h₃ h₄ : Byte) : Nat :=
  16 ^ 3 * hexDigit h₁ + 16 ^ 2 * hexDigit h₂ + 16 ^ 1 * hexDigit h₃ + 16 ^ 0 * hexDigit h₄

/-- The bytes of a `\u` escape: the UTF-8 form of the code, as a C string. -/
def codeBytes (code : Nat) : Bytes := cstr ((slayerEscaped2utf8 code).getD [])

/-- The text between the quotes of a string and the bytes it stands for. -/
inductive StringBody : Bytes → Bytes → Prop
  | nil : StringBody [] []
  | plain {c : Byte} {body content : Bytes} : c ≠ ch '"' → c ≠ ch '\\' →
      StringBody body content → StringBody (c :: body) (c :: content)
  | escape {c byte : Byte} {body content : Bytes} : escapeByte c = some byte →
      StringBody body content → StringBody (ch '\\' :: c :: body) (byte :: content)
  | unicode {h₁ h₂ h₃ h₄ : Byte} {body content : Bytes} :
      isxdigit h₁ → isxdigit h₂ → isxdigit h₃ → isxdigit h₄ → StringBody body content →
      StringBody (ch '\\' :: ch 'u' :: h₁ :: h₂ :: h₃ :: h₄ :: body)
        (codeBytes (hexCode h₁ h₂ h₃ h₄) ++ content)

inductive Mantissa : Bytes → Prop
  | whole {digits : Bytes} : digits ≠ [] → Digits digits → Mantissa digits
  | point {whole fraction : Bytes} : whole ≠ [] → Digits whole → Digits fraction →
      Mantissa (whole ++ ch '.' :: fraction)
  | leading {fraction : Bytes} : fraction ≠ [] → Digits fraction →
      Mantissa (ch '.' :: fraction)

inductive Exponent : Bytes → Prop
  | absent : Exponent []
  | present {mark : Byte} {sign digits : Bytes} : mark = ch 'e' ∨ mark = ch 'E' →
      sign = [] ∨ sign = [ch '+'] ∨ sign = [ch '-'] → digits ≠ [] → Digits digits →
      Exponent (mark :: (sign ++ digits))

/-- A number starts with a minus or a digit. -/
def NumberText (text : Bytes) : Prop :=
  (∃ c, text.head? = some c ∧ (c = ch '-' ∨ isdigit c = true)) ∧
  ∃ sign mantissa exponent, (sign = [] ∨ sign = [ch '-']) ∧ Mantissa mantissa ∧
    Exponent exponent ∧ text = sign ++ (mantissa ++ exponent)

/-! ## Values -/

inductive Scalar : Ast → Bytes → Prop
  | null : Scalar .null (bytes "null")
  | isTrue : Scalar (.boolean true) (bytes "true")
  | isFalse : Scalar (.boolean false) (bytes "false")
  | string {body content : Bytes} : StringBody body content →
      Scalar (.string content) (ch '"' :: (body ++ [ch '"']))
  | number {text : Bytes} : NumberText text → Scalar (.number text) text

/-- One or more items with commas between them and none at the end. -/
inductive Separated {α : Type} (item : α → Bytes → Prop) : List α → Bytes → Prop
  | one {x : α} {left text right : Bytes} : Blank left → item x text → Blank right →
      Separated item [x] (left ++ (text ++ right))
  | cons {x : α} {xs : List α} {left text right more : Bytes} : Blank left → item x text →
      Blank right → Separated item xs more →
      Separated item (x :: xs) (left ++ (text ++ (right ++ ch ',' :: more)))

/-- A member: a string, a colon and a value. -/
inductive Member (value : Ast → Bytes → Prop) : Bytes × Ast → Bytes → Prop
  | mk {name body left right text : Bytes} {ast : Ast} : StringBody body name → Blank left →
      Blank right → value ast text →
      Member value (name, ast)
        (ch '"' :: (body ++ ch '"' :: (left ++ ch ':' :: (right ++ text))))

inductive Container (value : Ast → Bytes → Prop) : Ast → Bytes → Prop
  | emptyArray {blank : Bytes} : Blank blank →
      Container value (.array []) (ch '[' :: (blank ++ [ch ']']))
  | array {elements : List Ast} {inner : Bytes} : Separated value elements inner →
      Container value (.array elements) (ch '[' :: (inner ++ [ch ']']))
  | emptyObject {blank : Bytes} : Blank blank →
      Container value (.object []) (ch '{' :: (blank ++ [ch '}']))
  | object {members : List (Bytes × Ast)} {inner : Bytes} :
      Separated (Member value) members inner →
      Container value (.object members) (ch '{' :: (inner ++ [ch '}']))

/-- The text derives the tree with containers nested at most so deep. -/
def Derives : Nat → Ast → Bytes → Prop
  | 0, ast, text => Scalar ast text
  | depth + 1, ast, text => Scalar ast text ∨ Container (Derives depth) ast text

/-- A whole text: a value with blanks around it. -/
def TextOf (depth : Nat) (ast : Ast) (text : Bytes) : Prop :=
  ∃ left inner right, Blank left ∧ Blank right ∧ Derives depth ast inner ∧
    text = left ++ (inner ++ right)

/-! ## Denotation -/

variable {δ : Type} [CDouble δ]

/-- Whether a number text has neither a fraction nor an exponent. -/
def isInteger (text : Bytes) : Bool := text.all fun c => isdigit c || c = ch '-'

/-- The integer an integer text denotes. -/
def integerValue (text : Bytes) : Int :=
  if text.head? = some (ch '-') then -(decimalValue (text.drop 1) : Int)
  else decimalValue text

/-- Integers saturate at the ends of `long`; the other numbers are doubles. -/
def numberValue (text : Bytes) : JsonValue δ :=
  if isInteger text then .long (Int64.ofIntClamp (integerValue text))
  else .double (CDouble.ofText text)

mutual

/-- The value a syntax tree denotes. -/
def Ast.denote : Ast → JsonValue δ
  | .null => .null
  | .boolean value => .boolean (if value then 1 else 0)
  | .string content => .string (cstr content)
  | .number text => numberValue text
  | .array elements => .array (denoteElements elements)
  | .object members => .object (objectOf (denoteMembers members))

def denoteElements : List Ast → List (JsonValue δ)
  | [] => []
  | element :: rest => element.denote :: denoteElements rest

def denoteMembers : List (Bytes × Ast) → List (Bytes × JsonValue δ)
  | [] => []
  | (name, value) :: rest => (cstr name, value.denote) :: denoteMembers rest

end

theorem denoteElements_eq_map (elements : List Ast) :
    denoteElements elements = elements.map (Ast.denote (δ := δ)) := by
  induction elements with
  | nil => rfl
  | cons element rest ih => rw [denoteElements, ih, List.map_cons]

theorem denoteMembers_eq_map (members : List (Bytes × Ast)) :
    denoteMembers members =
      members.map fun member => (cstr member.1, member.2.denote (δ := δ)) := by
  induction members with
  | nil => rfl
  | cons member rest ih => rw [denoteMembers, ih, List.map_cons]

/-- The denoted value, as far as it is fixed: literals are themselves, arrays keep
the order of their elements, the last member of a name answers a lookup, and an
integer that fits a `long` is that `long`. -/
structure Denotation (denote : Ast → JsonValue δ) : Prop where
  null : denote .null = .null
  boolean : ∀ value, denote (.boolean value) = .boolean (if value then 1 else 0)
  string : ∀ content, denote (.string content) = .string (cstr content)
  array : ∀ elements, denote (.array elements) = .array (elements.map denote)
  object : ∀ members, ∃ entries, denote (.object members) = .object entries ∧
    ∀ name, NulFree name → objectGet entries name =
      (members.reverse.find? fun member => cstr member.1 = name).map (denote ·.2)
  integer : ∀ text, isInteger text = true → -2 ^ 63 ≤ integerValue text →
    integerValue text < 2 ^ 63 →
      ∃ number : Int64, denote (.number text) = .long number ∧ number.toInt = integerValue text

/-- An integer in range denotes itself. -/
theorem numberValue_of_fits {text : Bytes} (hint : isInteger text = true)
    (hlow : -2 ^ 63 ≤ integerValue text) (hhigh : integerValue text < 2 ^ 63) :
    ∃ number : Int64, numberValue (δ := δ) text = .long number ∧
      number.toInt = integerValue text := by
  refine ⟨Int64.ofIntClamp (integerValue text), by simp [numberValue, hint], ?_⟩
  apply Int64.toInt_ofIntClamp
  · exact hlow
  · exact Int.le_sub_one_of_lt hhigh

/-- The last member of a name answers a lookup. -/
theorem objectGet_denoteMembers (members : List (Bytes × Ast)) (name : Bytes) :
    objectGet (objectOf (denoteMembers (δ := δ) members)) name =
      (members.reverse.find? fun member => strcmp name (cstr member.1) = 0).map
        fun member => member.2.denote := by
  rw [objectGet_objectOf, denoteMembers_eq_map, ← List.map_reverse, List.find?_map,
    Option.map_map]
  rfl

/-- The denotation treats every kind of value as its grammar does. -/
theorem denote_denotation : Denotation (Ast.denote (δ := δ)) where
  null := rfl
  boolean _ := rfl
  string _ := rfl
  array elements := by rw [Ast.denote, denoteElements_eq_map]
  object members := by
    refine ⟨_, rfl, ?_⟩
    intro name hname
    have hsame : (fun member : Bytes × Ast => decide (strcmp name (cstr member.1) = 0)) =
        fun member => decide (cstr member.1 = name) := by
      funext member
      simp [strcmp_eq_zero_iff hname (nulFree_cstr member.1), eq_comm]
    rw [objectGet_denoteMembers, hsame]
  integer _ := numberValue_of_fits

end DbSlayer.Json
