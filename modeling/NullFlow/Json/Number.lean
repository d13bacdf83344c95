import NullFlow.Json.Basic
/-!
The text of JSON numbers: which texts are numbers, and what they stand for.
-/

namespace NullFlow.Json

/-- How much of a number has been read. -/
inductive NumberPart where
  | sign
  /-- A leading zero, after which no digit may follow. -/
  | zero
  | whole
  | point
  | fraction
  | exponentMark
  | exponentSign
  | exponent
deriving DecidableEq

namespace NumberPart

/-- The part that the next character leads to, if the number goes on. -/
def next? (part : NumberPart) (char : Char) : Option NumberPart :=
  match part with
  | sign => if char = '0' then some zero else if char.isDigit then some whole else none
  | zero => afterWhole
  | whole => if char.isDigit then some whole else afterWhole
  | point => if char.isDigit then some fraction else none
  | fraction =>
      if char.isDigit then some fraction
      else if char = 'e' || char = 'E' then some exponentMark else none
  | exponentMark =>
      if char = '+' || char = '-' then some exponentSign
      else if char.isDigit then some exponent else none
  | exponentSign => if char.isDigit then some exponent else none
  | exponent => if char.isDigit then some exponent else none
where
  afterWhole : Option NumberPart :=
    if char = '.' then some point
    else if char = 'e' || char = 'E' then some exponentMark else none

/-- A number may end here. -/
def isComplete : NumberPart → Bool
  | sign => false
  | zero => true
  | whole => true
  | point => false
  | fraction => true
  | exponentMark => false
  | exponentSign => false
  | exponent => true

/-- The number is written without fraction and exponent. -/
def isWhole : NumberPart → Bool
  | zero => true
  | whole => true
  | _ => false

end NumberPart

/-- The nearest number with at most 53 binary digits before its trailing zeros. Of two nearest
numbers it is the one whose last digit is zero. -/
def nearestDouble (value : Nat) : Nat :=
  let unit := 1 <<< (value.log2 - 52)
  let whole := value / unit
  match compare (2 * (value % unit)) unit with
  | .lt => whole * unit
  | .eq => (whole + whole % 2) * unit
  | .gt => (whole + 1) * unit

/-- The value of the leading digits that 64 bits can hold, and the number of the other digits. -/
def leadingDigits (digits : List Char) : Nat × Nat :=
  digits.foldl
    (fun (value, others) digit =>
      let next := 10 * value + (digit.toNat - '0'.toNat)
      if others = 0 && next < 1 <<< 64 then (next, 0) else (value, others + 1))
    (0, 0)

/-- The decimal is too large for a binary number of 64 bits. It is taken as the product of its
leading digits and a power of ten, both rounded. A product counts as too large from the midpoint
between the largest number and the next power of two on. -/
def exceedsDouble (digits : List Char) (exponent : Int) : Bool :=
  let (value, others) := leadingDigits digits
  let exponent := exponent + others
  if value = 0 || exponent ≤ 0 then false
  else if 308 < exponent then true
  else 1 <<< 1024 - 1 <<< 970 ≤ nearestDouble value * nearestDouble (Nat.pow 10 exponent.toNat)

/-- The integer of a sign and digits, if 64 bits can hold it. Minus zero is no integer. -/
def integer? (negative : Bool) (digits : List Char) : Option Int :=
  let size := Nat.ofDigitChars 10 digits 0
  if negative then
    if 0 < size && size ≤ 1 <<< 63 then some (-size) else none
  else if size < 1 <<< 64 then some size else none

/-- The value of the text of a complete number. Numbers beyond all bounds have none. -/
def ofNumber? (part : NumberPart) (text : List Char) : Option Json :=
  let negative := text.head? = some '-'
  let unsigned := if negative then text.tail else text
  let mantissa := unsigned.takeWhile fun char => char != 'e' && char != 'E'
  let whole := mantissa.takeWhile fun char => char != '.'
  let fraction := (mantissa.dropWhile fun char => char != '.').tail
  let power := (unsigned.dropWhile fun char => char != 'e' && char != 'E').tail
  let powerDigits := power.filter Char.isDigit
  let shift : Int := Nat.ofDigitChars 10 powerDigits 0
  let exponent := (if power.head? = some '-' then -shift else shift) - fraction.length
  match if part.isWhole then integer? negative whole else none with
  | some value => some (.integer value)
  | none =>
      if exceedsDouble (whole ++ fraction) exponent then none
      else some (.decimal (String.ofList text))

end NullFlow.Json
