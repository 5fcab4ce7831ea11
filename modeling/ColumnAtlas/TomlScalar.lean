import ColumnAtlas.TomlText

namespace ColumnAtlas.Toml

open Json (isDigit decimal hexValue?)

/-- Characters of numbers, dates, times and the words for truth values. -/
def isScalarChar (c : Char) : Bool :=
  isDigit c || ('a' ≤ c && c ≤ 'z') || ('A' ≤ c && c ≤ 'Z') || ['+', '-', '_', '.', ':'].contains c

/-- Drops single underscores between digits; `none` if one stands elsewhere or there is no digit. -/
def digitGroups? (isDigit : Char → Bool) : List Char → Option (List Char)
  | [] => none
  | [c] => if isDigit c then some [c] else none
  | c :: '_' :: cs => if isDigit c then (digitGroups? isDigit cs).map (c :: ·) else none
  | c :: cs => if isDigit c then (digitGroups? isDigit cs).map (c :: ·) else none

/-- A sign and what follows it. -/
def splitSign : List Char → Bool × List Char
  | '-' :: cs => (true, cs)
  | '+' :: cs => (false, cs)
  | cs => (false, cs)

/-- Decimal digits without a superfluous leading zero. -/
def wholeDigits? (cs : List Char) : Option (List Char) := do
  let digits ← digitGroups? isDigit cs
  if digits.head? = some '0' ∧ cs ≠ ['0'] then none
  return digits

/-- The digits of a number in a base that is a power of two. -/
def baseValue? (base : Nat) (cs : List Char) : Option Nat := do
  let digits ← digitGroups? (fun c => (hexValue? c).any (· < base)) cs
  return digits.foldl (fun n c => n * base + (hexValue? c).getD 0) 0

/-- The largest integer of 64 bits with a sign. -/
def largestInteger : Nat := 0x7FFFFFFFFFFFFFFF

/-- An integer of 64 bits, with a sign in base ten only. -/
def isInteger : List Char → Bool
  | '0' :: 'x' :: cs => (baseValue? 16 cs).any (· ≤ largestInteger)
  | '0' :: 'o' :: cs => (baseValue? 8 cs).any (· ≤ largestInteger)
  | '0' :: 'b' :: cs => (baseValue? 2 cs).any (· ≤ largestInteger)
  | cs =>
    let (negative, cs) := splitSign cs
    (wholeDigits? cs).any fun digits =>
      decimal digits ≤ if negative then largestInteger + 1 else largestInteger

/-- The number written by `digits`, times ten to the `exponent`, is at least halfway from the
largest double to the next power of two and so has no nearest double. -/
def exceedsDouble (digits : List Char) (exponent : Int) : Bool :=
  let digits := digits.dropWhile (· = '0')
  let top : Int := digits.length + exponent
  if digits.isEmpty || top < 309 then false
  else if 310 ≤ top then true
  else
    (Nat.pow 2 1024 - Nat.pow 2 970) * Nat.pow 10 (-exponent).toNat ≤
      decimal digits * Nat.pow 10 exponent.toNat

/-- The digits after the point, none if there is no fraction. -/
def fractionDigits? : List Char → Option (List Char)
  | [] => some []
  | '.' :: cs => digitGroups? isDigit cs
  | _ => none

def exponentValue? : List Char → Option Int
  | [] => some 0
  | _ :: cs => do
    let (negative, cs) := splitSign cs
    let digits ← digitGroups? isDigit cs
    return if negative then -(decimal digits : Int) else decimal digits

/-- A float with a fraction, an exponent or both, which is not too large for a double. Numbers too
far below zero become minus infinity and are let through. -/
def isFloat (cs : List Char) : Bool :=
  let (negative, cs) := splitSign cs
  if [['i', 'n', 'f'], ['n', 'a', 'n']].contains cs then true
  else
    let whole := cs.takeWhile fun c => isDigit c || c = '_'
    let rest := cs.dropWhile fun c => isDigit c || c = '_'
    let fraction := rest.takeWhile fun c => c ≠ 'e' && c ≠ 'E'
    let exponent := rest.dropWhile fun c => c ≠ 'e' && c ≠ 'E'
    if rest.isEmpty then false
    else
      match wholeDigits? whole, fractionDigits? fraction, exponentValue? exponent with
      | some whole, some fraction, some exponent =>
        negative || !exceedsDouble (whole ++ fraction) (exponent - fraction.length)
      | _, _, _ => false

def isLeapYear (year : Nat) : Bool :=
  year % 4 = 0 && (year % 100 ≠ 0 || year % 400 = 0)

def daysInMonth (year month : Nat) : Nat :=
  if month = 2 then if isLeapYear year then 29 else 28
  else if [4, 6, 9, 11].contains month then 30
  else 31

/-- A number of a fixed count of digits, between two bounds. -/
def isField (low high : Nat) (cs : List Char) : Bool :=
  cs.all isDigit && low ≤ decimal cs && decimal cs ≤ high

/-- Year, month and day, the day within its month. -/
def isDate : List Char → Bool
  | [y₁, y₂, y₃, y₄, '-', m₁, m₂, '-', d₁, d₂] =>
    isField 0 9999 [y₁, y₂, y₃, y₄] && isField 1 12 [m₁, m₂] &&
      isField 1 (daysInMonth (decimal [y₁, y₂, y₃, y₄]) (decimal [m₁, m₂])) [d₁, d₂]
  | _ => false

/-- Hours, minutes and seconds; the sixtieth second is a leap second. -/
def isClock : List Char → Bool
  | [h₁, h₂, ':', m₁, m₂, ':', s₁, s₂] =>
    isField 0 23 [h₁, h₂] && isField 0 59 [m₁, m₂] && isField 0 60 [s₁, s₂]
  | _ => false

/-- A time of day, with or without a fraction of a second. -/
def isTime (cs : List Char) : Bool :=
  isClock (cs.take 8) &&
    match cs.drop 8 with
    | [] => true
    | '.' :: digits => !digits.isEmpty && digits.all isDigit
    | _ => false

/-- The distance to universal time, from its sign on. -/
def isOffset : List Char → Bool
  | [sign, h₁, h₂, ':', m₁, m₂] =>
    (sign = '+' || sign = '-') && isField 0 23 [h₁, h₂] && isField 0 59 [m₁, m₂]
  | _ => false

/-- Characters of a time without an offset. -/
def isTimeChar (c : Char) : Bool := isDigit c || c = ':' || c = '.'

/-- A time of day, with or without an offset from universal time. -/
def isOffsetTime (cs : List Char) : Bool :=
  let time := cs.takeWhile isTimeChar
  let offset := cs.dropWhile isTimeChar
  isTime time && (offset.isEmpty || offset = ['Z'] || offset = ['z'] || isOffset offset)

/-- A date with a time after a letter between them. -/
def isDateTime (cs : List Char) : Bool :=
  isDate (cs.take 10) &&
    match cs.drop 10 with
    | 'T' :: time => isOffsetTime time
    | 't' :: time => isOffsetTime time
    | _ => false

end ColumnAtlas.Toml
