import AnnotatedGrammar.Toml.Basic

/-!
# Words of a TOML document

Values that are written without quotes or brackets: booleans, numbers and dates. Integers have to
fit into 64 bits with a sign, numbers have to stay below infinity, and dates have to exist.
-/

namespace AnnotatedGrammar.Toml

/-- Digits in groups: each underscore stands between two digits. -/
def areGrouped (isDigit : Char → Bool) : List Char → Bool
  | [] => false
  | [c] => isDigit c
  | c :: '_' :: rest => isDigit c && areGrouped isDigit rest
  | c :: rest => isDigit c && areGrouped isDigit rest

/-- The value of a digit in any base up to sixteen. -/
def digitValue (c : Char) : Nat :=
  if c.isDigit then c.toNat - '0'.toNat else c.toLower.toNat - 'a'.toNat + 10

/-- The number that digits stand for; underscores do not count. -/
def digitsValue (base : Nat) (digits : List Char) : Nat :=
  (digits.filter (· != '_')).foldl (fun n c => base * n + digitValue c) 0

/-- Whether a character is a digit in base sixteen. -/
def isHexDigit (c : Char) : Bool :=
  c.isDigit || ('a' ≤ c.toLower && c.toLower ≤ 'f')

/-- Splits a sign off; the flag tells a minus. -/
def splitSign : List Char → Bool × List Char
  | '-' :: rest => (true, rest)
  | '+' :: rest => (false, rest)
  | word => (false, word)

/-- Decimal digits in groups, without superfluous zeros in front. -/
def areDecimal (digits : List Char) : Bool :=
  areGrouped Char.isDigit digits && (digits.head? != some '0' || digits.length == 1)

/-- Digits that may stand in a number with a fixed base. -/
def isBased (base : Nat) (isDigit : Char → Bool) (digits : List Char) : Bool :=
  areGrouped isDigit digits && digitsValue base digits < Nat.pow 2 63

/-- Whether a word is an integer. -/
def isInteger (word : List Char) : Bool :=
  match word with
  | '0' :: 'x' :: digits => isBased 16 isHexDigit digits
  | '0' :: 'o' :: digits => isBased 8 (fun c => '0' ≤ c && c ≤ '7') digits
  | '0' :: 'b' :: digits => isBased 2 (fun c => c == '0' || c == '1') digits
  | _ =>
    let (negative, digits) := splitSign word
    areDecimal digits && digitsValue 10 digits < Nat.pow 2 63 + (if negative then 1 else 0)

/-- From this number on, rounding to 64 bits gives infinity. -/
def firstInfinite : Nat := Nat.pow 2 1024 - Nat.pow 2 970

/-- Whether digits times a power of ten are rounded to infinity. -/
def isInfinite (digits : List Char) (exponent : Int) : Bool :=
  let mantissa := digitsValue 10 digits
  let magnitude := (digits.filter Char.isDigit).length + exponent
  if mantissa = 0 ∨ magnitude < 300 then false
  else
    let leading := (digits.dropWhile fun c => c == '0' || c == '_').filter Char.isDigit
    if 400 < leading.length + exponent then true
    else if exponent < 0 then firstInfinite * Nat.pow 10 exponent.natAbs ≤ mantissa
    else firstInfinite ≤ mantissa * Nat.pow 10 exponent.natAbs

/-- Whether a character belongs to digits in groups. -/
def isGrouping (c : Char) : Bool := c.isDigit || c == '_'

/-- The exponent at the end of a number, if it has one. -/
def exponent? : List Char → Option Int
  | [] => some 0
  | c :: rest =>
    let (negative, digits) := splitSign rest
    if (c == 'e' || c == 'E') && areGrouped Char.isDigit digits then
      let n := (digitsValue 10 digits : Int)
      some (if negative then -n else n)
    else none

/-- Whether a word is a number with a fraction or an exponent. -/
def isFloat (word : List Char) : Bool :=
  let (negative, unsigned) := splitSign word
  if unsigned == "inf".toList || unsigned == "nan".toList then true
  else
    let whole := unsigned.takeWhile isGrouping
    match unsigned.dropWhile isGrouping with
    | [] => false
    | '.' :: rest =>
      let fraction := rest.takeWhile isGrouping
      match exponent? (rest.dropWhile isGrouping) with
      | some e =>
        areDecimal whole && areGrouped Char.isDigit fraction &&
          (negative || !isInfinite (whole ++ fraction)
            (e - ((fraction.filter Char.isDigit).length : Int)))
      | none => false
    | rest =>
      match exponent? rest with
      | some e => areDecimal whole && (negative || !isInfinite whole e)
      | none => false

/-- A number of two digits within bounds, and what follows it. -/
def twoDigits (low high : Nat) : List Char → Option (Nat × List Char)
  | a :: b :: rest =>
    let n := digitsValue 10 [a, b]
    if a.isDigit && b.isDigit && low ≤ n && n ≤ high then some (n, rest) else none
  | _ => none

/-- How many days a month has. -/
def daysInMonth (year month : Nat) : Nat :=
  if month = 2 then
    if year % 4 = 0 ∧ (year % 100 ≠ 0 ∨ year % 400 = 0) then 29 else 28
  else if month = 4 ∨ month = 6 ∨ month = 9 ∨ month = 11 then 30
  else 31

/-- What follows a date. -/
def afterDate? : List Char → Option (List Char)
  | a :: b :: c :: d :: '-' :: rest =>
    if [a, b, c, d].all Char.isDigit then
      match twoDigits 1 12 rest with
      | some (month, '-' :: rest) =>
        match twoDigits 1 31 rest with
        | some (day, rest) =>
          if day ≤ daysInMonth (digitsValue 10 [a, b, c, d]) month then some rest else none
        | none => none
      | _ => none
    else none
  | _ => none

/-- What follows a time of day. -/
def afterTime? (word : List Char) : Option (List Char) :=
  match twoDigits 0 23 word with
  | some (_, ':' :: rest) =>
    match twoDigits 0 59 rest with
    | some (_, ':' :: rest) =>
      match twoDigits 0 60 rest with
      | some (_, '.' :: c :: rest) =>
        if c.isDigit then some (rest.dropWhile Char.isDigit) else none
      | some (_, rest) => some rest
      | none => none
    | _ => none
  | _ => none

/-- Whether a word is the difference of a time from universal time. -/
def isOffset : List Char → Bool
  | ['Z'] | ['z'] => true
  | c :: rest =>
    (c == '+' || c == '-') &&
      match twoDigits 0 23 rest with
      | some (_, ':' :: rest) => twoDigits 0 59 rest == some (digitsValue 10 rest, [])
      | _ => false
  | [] => false

/-- Whether a word is a time of day, perhaps with an offset. -/
def isTimeOfDate (word : List Char) : Bool :=
  match afterTime? word with
  | some rest => rest.isEmpty || isOffset rest
  | none => false

/-- Whether a word is a date without a time. -/
def isDay (word : List Char) : Bool := afterDate? word == some []

/-- Whether a word is a date, a time, or both. -/
def isDate (word : List Char) : Bool :=
  afterTime? word == some [] ||
    match afterDate? word with
    | some [] => true
    | some (c :: rest) => (c == 'T' || c == 't') && isTimeOfDate rest
    | none => false

/-- The item that a word stands for. -/
def wordItem? (word : List Char) : Option Item :=
  if word == "true".toList then some (.boolean true)
  else if word == "false".toList then some (.boolean false)
  else if isDate word then some .date
  else if isFloat word || isInteger word then some .number
  else none

end AnnotatedGrammar.Toml
