import NullFlow.Toml.Basic
/-!
Numbers, dates and the other values that TOML writes without quotes.
-/

namespace NullFlow.Toml

/-- The number that digits write in a base below 37, with single underscores between digits. -/
def digitsValue? (base : Nat) (digits : List Char) : Option Nat :=
  let value? (char : Char) : Option Nat :=
    let code :=
      if char.isDigit then char.toNat - '0'.toNat
      else if char.isAlpha then char.toLower.toNat - 'a'.toNat + 10
      else base
    if code < base then some code else none
  match digits with
  | [] => none
  | first :: rest => do
      let start ← value? first
      let (value, pending) ← rest.foldlM (fun (value, underscore) char =>
        if char = '_' then if underscore then none else some (value, true)
        else do return (value * base + (← value? char), false)) (start, false)
      if pending then none else some value

/-- The number of decimal digits of a fixed count, if it lies in a range. -/
def fixedDigits? (count least most : Nat) (digits : List Char) : Option Nat := do
  let value ← digitsValue? 10 digits
  if digits.length = count && !digits.contains '_' && least ≤ value && value ≤ most then some value
  else none

/-- Decimal digits without a superfluous zero in front. -/
def wholeDigits? (digits : List Char) : Option Nat :=
  match digits with
  | '0' :: _ :: _ => none
  | digits => digitsValue? 10 digits

/-- The sign in front of a number and what follows it. -/
def splitSign : List Char → Bool × List Char
  | '-' :: rest => (true, rest)
  | '+' :: rest => (false, rest)
  | token => (false, token)

/-- An integer of 64 bits. -/
def bounded? (value : Int) : Option Toml :=
  if -(1 <<< 63 : Nat) ≤ value && value < (1 <<< 63 : Nat) then some (.integer value) else none

def integer? (token : List Char) : Option Toml :=
  match token with
  | '0' :: 'x' :: digits => (digitsValue? 16 digits).bind fun value => bounded? value
  | '0' :: 'o' :: digits => (digitsValue? 8 digits).bind fun value => bounded? value
  | '0' :: 'b' :: digits => (digitsValue? 2 digits).bind fun value => bounded? value
  | token =>
      let (negative, digits) := splitSign token
      (wholeDigits? digits).bind fun value => bounded? (if negative then -value else value)

/-- The part of a text before a character, and the part after it if the character occurs. -/
def splitAt (isBreak : Char → Bool) (text : List Char) : List Char × Option (List Char) :=
  match text.span fun char => !isBreak char with
  | (before, []) => (before, none)
  | (before, _ :: after) => (before, some after)

/-- A number of the form `mantissa * 10 ^ exponent` rounds to infinity among the binary numbers of
64 bits. -/
def overflows (mantissa : Nat) (exponent : Int) : Bool :=
  let digits : Int := (Nat.toDigits 10 mantissa).length
  if mantissa = 0 || digits + exponent < 309 then false
  else if 310 < digits + exponent then true
  else
    let limit := 1 <<< 1024 - 1 <<< 970
    if exponent < 0 then limit * Nat.pow 10 exponent.natAbs ≤ mantissa
    else limit ≤ mantissa * Nat.pow 10 exponent.natAbs

/-- A number with a fraction or an exponent. One too large to be written as a number is none. -/
def decimal? (token : List Char) : Option Toml := do
  let (negative, unsigned) := splitSign token
  if unsigned = "inf".toList || unsigned = "nan".toList then return .decimal
  let (mantissa, exponent?) := splitAt (fun char => char = 'e' || char = 'E') unsigned
  let (whole, fraction?) := splitAt (· = '.') mantissa
  if fraction?.isNone && exponent?.isNone then none
  let wholeValue ← wholeDigits? whole
  let (value, places) ←
    match fraction? with
    | none => some (wholeValue, 0)
    | some fraction => do
        let places := (fraction.filter Char.isDigit).length
        some (wholeValue * Nat.pow 10 places + (← digitsValue? 10 fraction), places)
  let exponent ←
    match exponent? with
    | none => some (0 : Int)
    | some exponent => do
        let (below, digits) := splitSign exponent
        let size ← digitsValue? 10 digits
        some (if below then -(size : Int) else size)
  if !negative && overflows value (exponent - places) then none else some .decimal

/-- The number of days of a month. -/
def daysOfMonth (year month : Nat) : Nat :=
  if month = 2 then
    if year % 4 = 0 && (year % 100 ≠ 0 || year % 400 = 0) then 29 else 28
  else if [4, 6, 9, 11].contains month then 30
  else 31

/-- The text is a date, such as `1979-05-27`. -/
def isDate (text : List Char) : Bool :=
  Option.isSome do
    let year ← fixedDigits? 4 0 9999 (text.take 4)
    let month ← fixedDigits? 2 1 12 ((text.drop 5).take 2)
    let _ ← fixedDigits? 2 1 (daysOfMonth year month) (text.drop 8)
    if text[4]? = some '-' && text[7]? = some '-' then some () else none

/-- The text is an hour and a minute, such as `07:32`. -/
def isHourAndMinute (text : List Char) : Bool :=
  (fixedDigits? 2 0 23 (text.take 2)).isSome && text[2]? = some ':' &&
    (fixedDigits? 2 0 59 (text.drop 3)).isSome

/-- The text is a time of the day, such as `07:32:00.5`. -/
def isTime (text : List Char) : Bool :=
  isHourAndMinute (text.take 5) && text[5]? = some ':' &&
    (fixedDigits? 2 0 60 ((text.drop 6).take 2)).isSome &&
    match text.drop 8 with
    | [] => true
    | '.' :: fraction => !fraction.isEmpty && fraction.all Char.isDigit
    | _ => false

/-- The text is a time with the distance from universal time, if it gives one. -/
def isZonedTime (text : List Char) : Bool :=
  let (time, zone) := text.span fun char => char.isDigit || char = ':' || char = '.'
  isTime time &&
    match zone with
    | [] => true
    | ['Z'] => true
    | ['z'] => true
    | sign :: distance => (sign = '+' || sign = '-') && isHourAndMinute distance

def moment? (token : List Char) : Option Toml :=
  let isMoment :=
    if isDate (token.take 10) then
      match token.drop 10 with
      | [] => true
      | mark :: time => (mark = 'T' || mark = 't' || mark = ' ') && isZonedTime time
    else isTime token
  if isMoment then some .moment else none

/-- The characters of which values without quotes consist. -/
def isBare (char : Char) : Bool :=
  char.isAlphanum || ['+', '-', '.', ':', '_'].contains char

/-- Splits a value without quotes from the text. A blank belongs to it if a time follows a date. -/
def splitBare (text : List Char) : List Char × List Char :=
  let (token, rest) := text.span isBare
  match rest with
  | ' ' :: hour :: minute :: ':' :: _ =>
      if isDate token && hour.isDigit && minute.isDigit then
        let (time, rest) := rest.tail.span isBare
        (token ++ ' ' :: time, rest)
      else (token, rest)
  | rest => (token, rest)

/-- Reads a value without quotes. -/
def bare? (token : List Char) : Option Toml :=
  if token = "true".toList then some (.boolean true)
  else if token = "false".toList then some (.boolean false)
  else (moment? token).or ((decimal? token).or (integer? token))

end NullFlow.Toml
