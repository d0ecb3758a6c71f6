import DbSlayer.CLib.Strings
import Mathlib.Data.Nat.Digits.Defs

/-! # Number conversions of the C library

`strtol` in base ten, `strtod` and the `printf` conversions the sources use.
A conversion reports how many bytes it consumed; zero means that no conversion
was performed and the end pointer is the start. `long` and `long long` have 64
bits. A `double` is abstract: what a decimal literal rounds to and how a value
prints are the operations of `CDouble`.
-/

namespace DbSlayer

/-- What the sources need of the C type `double`. -/
class CDouble (δ : Type) where
  /-- The value of the text that `strtod` consumed. -/
  ofText : Bytes → δ
  /-- The text of `snprintf` under `%.16g`. -/
  printG16 : δ → Bytes
  /-- The text of `snprintf` under `%g`. -/
  printG : δ → Bytes

/-- Doubles kept as their text, which is enough to run the model. -/
instance : CDouble Bytes where
  ofText := id
  printG16 := id
  printG := id

/-- The value of a run of decimal digits. -/
def decimalValue (digits : Bytes) : Nat :=
  digits.foldl (fun value digit => 10 * value + (digit.toNat - 48)) 0

/-- The length of an optional sign. -/
def signLength : Bytes → Nat
  | [] => 0
  | c :: _ => if c = ch '-' ∨ c = ch '+' then 1 else 0

/-- `strtol` with base ten: the saturated value and the bytes consumed. -/
def strtol (s : Bytes) : Int64 × Nat :=
  let blank := (s.takeWhile isspace).length
  let signed := s.drop blank
  let sign := signLength signed
  let digits := (signed.drop sign).takeWhile isdigit
  let magnitude : Int := decimalValue digits
  if digits = [] then (0, 0)
  else (Int64.ofIntClamp (if signed.head? = some (ch '-') then -magnitude else magnitude),
    blank + sign + digits.length)

/-- Digits with an optional radix character, at least one digit in all. -/
def mantissaLength (digit : Byte → Bool) (s : Bytes) : Nat :=
  let whole := (s.takeWhile digit).length
  match s.drop whole with
  | [] => whole
  | c :: rest =>
      let fraction := (rest.takeWhile digit).length
      if c = ch '.' then if whole + fraction = 0 then 0 else whole + 1 + fraction
      else whole

/-- An exponent part, or nothing when its digits are missing. -/
def exponentLength (lower upper : Byte) : Bytes → Nat
  | [] => 0
  | c :: rest =>
      let sign := signLength rest
      let digits := ((rest.drop sign).takeWhile isdigit).length
      if c = lower ∨ c = upper then if digits = 0 then 0 else 1 + sign + digits else 0

def floatLength (digit : Byte → Bool) (lower upper : Byte) (s : Bytes) : Nat :=
  let mantissa := mantissaLength digit s
  if mantissa = 0 then 0 else mantissa + exponentLength lower upper (s.drop mantissa)

/-- Whether `s` starts with a lower-case word, in any letter case. -/
def startsWord (word s : Bytes) : Bool := (s.take word.length).map tolower = word

/-- The optional `(n-char-sequence)` after `nan`. -/
def nanTagLength (s : Bytes) : Nat :=
  let isTag := fun c => isdigit c || (ch 'a' ≤ tolower c && tolower c ≤ ch 'z') || c = ch '_'
  match s with
  | [] => 0
  | c :: rest =>
      let tag := (rest.takeWhile isTag).length
      if c = ch '(' ∧ (rest.drop tag).head? = some (ch ')') then tag + 2 else 0

/-- The subject sequence of `strtod` after blanks and the sign. -/
def strtodBodyLength (s : Bytes) : Nat :=
  if startsWord (bytes "0x") s then
    let hex := floatLength isxdigit (ch 'p') (ch 'P') (s.drop 2)
    if hex = 0 then 1 else 2 + hex
  else if startsWord (bytes "infinity") s then 8
  else if startsWord (bytes "inf") s then 3
  else if startsWord (bytes "nan") s then 3 + nanTagLength (s.drop 3)
  else floatLength isdigit (ch 'e') (ch 'E') s

def strtodLength (s : Bytes) : Nat :=
  let blank := (s.takeWhile isspace).length
  let signed := s.drop blank
  let sign := signLength signed
  let body := strtodBodyLength (signed.drop sign)
  if body = 0 then 0 else blank + sign + body

/-- `strtod`: the value and the bytes consumed. -/
def strtod (δ : Type) [CDouble δ] (s : Bytes) : δ × Nat :=
  (CDouble.ofText (s.take (strtodLength s)), strtodLength s)

/-- The text of a natural number in decimal. -/
def printNat (n : Nat) : Bytes := (Nat.toDigits 10 n).map ch

/-- The text of an integer under `%ld` and `%lld`. -/
def printLong (n : Int64) : Bytes :=
  if n.toInt < 0 then ch '-' :: printNat n.toInt.natAbs else printNat n.toInt.natAbs

theorem isdigit_ch {c : Char} (hc : c.isDigit = true) : isdigit (ch c) = true := by
  simp only [Char.isDigit, Bool.and_eq_true, decide_eq_true_eq] at hc
  simp only [isdigit, ch, Bool.and_eq_true, decide_eq_true_eq, UInt8.le_iff_toNat_le,
    UInt32.toNat_toUInt8, UInt32.le_iff_toNat_le] at hc ⊢
  have h0 : ('0' : Char).val.toNat = 48 := rfl
  have h9 : ('9' : Char).val.toNat = 57 := rfl
  omega

theorem isdigit_of_mem_printNat {n : Nat} {c : Byte} (hc : c ∈ printNat n) :
    isdigit c = true := by
  obtain ⟨d, hd, rfl⟩ := List.mem_map.mp hc
  exact isdigit_ch (Nat.isDigit_of_mem_toDigits (by decide) (by decide) hd)

theorem printNat_ne_nil (n : Nat) : printNat n ≠ [] := by
  simp [printNat, Nat.toDigits_ne_nil]

/-- A positive number is printed without a leading zero. -/
theorem printNat_pos {n : Nat} (hn : 0 < n) :
    ∃ d rest, printNat n = d :: rest ∧ d ≠ ch '0' := by
  induction n using Nat.strongRecOn with
  | ind n ih =>
      rw [printNat, Nat.toDigits_eq_if (by decide)]
      split
      next hlt =>
        have hdigit : ∀ d < 10, 0 < d → ch (Nat.digitChar d) ≠ ch '0' := by decide
        exact ⟨ch n.digitChar, [], rfl, hdigit n hlt hn⟩
      next hge =>
        obtain ⟨d, rest, hprint, hd⟩ := ih (n / 10) (by omega) (by omega)
        rw [List.map_append, ← printNat, hprint]
        exact ⟨d, _, rfl, hd⟩

theorem decimalValue_printNat (n : Nat) : decimalValue (printNat n) = n := by
  have hfold : ∀ (digits : List Char) (value : Nat), (∀ c ∈ digits, c.isDigit = true) →
      (digits.map ch).foldl (fun value digit => 10 * value + (digit.toNat - 48)) value =
        Nat.ofDigitChars 10 digits value := by
    intro digits
    induction digits with
    | nil => simp
    | cons c rest ih =>
        intro value hdigits
        have hc := hdigits c List.mem_cons_self
        have hnat : (ch c).toNat = c.toNat := by
          simp only [Char.isDigit, Bool.and_eq_true, decide_eq_true_eq,
            UInt32.le_iff_toNat_le] at hc
          have h9 : ('9' : Char).val.toNat = 57 := rfl
          have hval : c.toNat = c.val.toNat := rfl
          simp only [ch, UInt32.toNat_toUInt8]
          omega
        rw [List.map_cons, List.foldl_cons, Nat.ofDigitChars_cons, hnat]
        exact ih _ (fun d hd => hdigits d (List.mem_cons_of_mem c hd))
  rw [decimalValue, printNat, hfold _ _ fun c hc =>
    Nat.isDigit_of_mem_toDigits (by decide) (by decide) hc]
  exact Nat.ofDigitChars_ten_toDigits

end DbSlayer
