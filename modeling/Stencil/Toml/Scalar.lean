/-
Numbers, dates and words in TOML.

A scalar that is not a string is one run of characters.  It is a word, a number or a date with
or without a time; anything else is malformed.
-/
import Stencil.Decimal.Reading
import Stencil.Text.Digit
import Stencil.Text.Search
import Stencil.Toml.Value

namespace Stencil.Toml

/-- Digits with single underscores between them, the underscores removed. -/
def plainDigits? (isDigit : Char → Bool) (text : List Char) : Option (List Char) :=
  let pieces := Text.splitFrom ['_'] 0 text
  if pieces.all fun piece => !piece.isEmpty && piece.all isDigit then some pieces.flatten
  else none

/-- The value of a digit in any base up to sixteen. -/
def baseDigit (c : Char) : Nat :=
  if c.isDigit then c.toNat - '0'.toNat
  else if 'a' ≤ c ∧ c ≤ 'f' then c.toNat - 'a'.toNat + 10
  else if 'A' ≤ c ∧ c ≤ 'F' then c.toNat - 'A'.toNat + 10
  else 16

/-- A natural number in a base. -/
def natural? (base : Nat) (text : List Char) : Option Nat :=
  (plainDigits? (fun c => decide (baseDigit c < base)) text).map
    (·.foldl (fun n c => base * n + baseDigit c) 0)

/-- A decimal number without superfluous zeros in front. -/
def decimalNatural? (text : List Char) : Option (List Char) :=
  match plainDigits? Char.isDigit text with
  | some ('0' :: _ :: _) => none
  | found => found

/-- An integer. -/
def integer? (text : List Char) : Option Int :=
  match text with
  | '0' :: 'x' :: rest => (natural? 16 rest).map Int.ofNat
  | '0' :: 'o' :: rest => (natural? 8 rest).map Int.ofNat
  | '0' :: 'b' :: rest => (natural? 2 rest).map Int.ofNat
  | _ =>
    let (negative, rest) := Decimal.splitSign text
    match decimalNatural? rest with
    | none => none
    | some digits =>
      (Text.decimal? digits).map fun n => if negative then -Int.ofNat n else Int.ofNat n

/-- The digits of a number in front of its exponent, and the exponent. -/
def splitExponent? (text : List Char) : Option (List Char × Int) :=
  let mantissa := text.takeWhile fun c => c ≠ 'e' && c ≠ 'E'
  match text.dropWhile fun c => c ≠ 'e' && c ≠ 'E' with
  | [] => some (mantissa, 0)
  | _ :: tail =>
    let (negative, rest) := Decimal.splitSign tail
    match (plainDigits? Char.isDigit rest).bind Text.decimal? with
    | some n => some (mantissa, if negative then -Int.ofNat n else Int.ofNat n)
    | none => none

/-- A double. -/
def double? (text : List Char) : Option Float :=
  let (negative, rest) := Decimal.splitSign text
  if rest = ['i', 'n', 'f'] then some (if negative then -(1.0 / 0.0) else 1.0 / 0.0)
  else if rest = ['n', 'a', 'n'] then some (0.0 / 0.0)
  else
    match splitExponent? rest with
    | none => none
    | some (mantissa, exponent) =>
      match Text.splitOnce? '.' mantissa with
      | none =>
        if mantissa.length = rest.length then none
        else (decimalNatural? mantissa).map fun digits => Decimal.ofDigits negative digits exponent
      | some (whole, fraction) =>
        match decimalNatural? whole, plainDigits? Char.isDigit fraction with
        | some whole, some fraction =>
          some (Decimal.ofDigits negative (whole ++ fraction) (exponent - fraction.length))
        | _, _ => none

/-- The number that two digits stand for. -/
def twoDigits? : List Char → Option (Nat × List Char)
  | a :: b :: rest => (Text.decimal? [a, b]).map fun n => (n, rest)
  | _ => none

/-- The number of days in a month. -/
def daysInMonth (year month : Nat) : Nat :=
  if month = 2 then
    if year % 4 = 0 ∧ (year % 100 ≠ 0 ∨ year % 400 = 0) then 29 else 28
  else if month ∈ [4, 6, 9, 11] then 30 else 31

/-- A date, and what follows it. -/
def date? : List Char → Option (List Char × List Char)
  | a :: b :: c :: d :: '-' :: rest => do
    let year ← Text.decimal? [a, b, c, d]
    let (month, rest) ← twoDigits? rest
    match rest with
    | '-' :: e :: f :: rest => do
      let day ← Text.decimal? [e, f]
      guard (1 ≤ month ∧ month ≤ 12 ∧ 1 ≤ day ∧ day ≤ daysInMonth year month)
      let m := Nat.toDigits 10 month
      return ([a, b, c, d, '-'] ++ (if m.length < 2 then '0' :: m else m) ++ ['-', e, f], rest)
    | _ => none
  | _ => none

/-- Digits behind a decimal point without zeros at the end. -/
def trimZeros (digits : List Char) : List Char :=
  (digits.reverse.dropWhile (· = '0')).reverse

/-- The seconds of a time, and what follows them. -/
def seconds? : List Char → Option (List Char × List Char)
  | ':' :: a :: b :: rest => do
    let n ← Text.decimal? [a, b]
    guard (n ≤ 60)
    match rest with
    | '.' :: more =>
      let digits := more.takeWhile Char.isDigit
      guard (!digits.isEmpty)
      let shown := trimZeros (digits.take 9)
      return ([':', a, b] ++ (if shown.isEmpty then [] else '.' :: shown),
        more.dropWhile Char.isDigit)
    | _ => return ([':', a, b], rest)
  | rest => some ([':', '0', '0'], rest)

/-- A time of day, and what follows it. -/
def time? : List Char → Option (List Char × List Char)
  | a :: b :: ':' :: c :: d :: rest => do
    let hour ← Text.decimal? [a, b]
    let minute ← Text.decimal? [c, d]
    guard (hour < 24 ∧ minute < 60)
    let (seconds, rest) ← seconds? rest
    return ([a, b, ':', c, d] ++ seconds, rest)
  | _ => none

/-- An offset from universal time, at the end of a text.  No offset at all counts as one to the
east. -/
def offset? : List Char → Option (List Char)
  | [] => some []
  | ['Z'] | ['z'] => some ['Z']
  | [s, a, b, ':', c, d] => do
    let hour ← Text.decimal? [a, b]
    let minute ← Text.decimal? [c, d]
    guard ((s = '+' ∨ s = '-') ∧ hour < 24 ∧ minute < 60)
    return [if hour = 0 ∧ minute = 0 then '+' else s, a, b, ':', c, d]
  | _ => none

/-- A date, a time, or a date with a time and perhaps an offset. -/
def datetime? (text : List Char) : Option (List Char) :=
  match date? text with
  | some (date, []) => some date
  | some (date, sep :: rest) => do
    guard (sep = 'T' ∨ sep = 't' ∨ sep = ' ')
    let (time, rest) ← time? rest
    let offset ← offset? rest
    return date ++ 'T' :: time ++ offset
  | none =>
    match time? text with
    | some (time, []) => some time
    | _ => none

/-- The value of a scalar that is not a string. -/
def scalar? (text : List Char) : Option Toml :=
  if text = "true".toList then some (.bool true)
  else if text = "false".toList then some (.bool false)
  else
    match integer? text with
    | some n => some (.int n)
    | none =>
      match double? text with
      | some x =>
        some (if x.isInf && text.getLast? ≠ some 'f' then .tooLarge else .float x)
      | none => (datetime? text).map fun shown => .datetime (String.ofList shown)

end Stencil.Toml
