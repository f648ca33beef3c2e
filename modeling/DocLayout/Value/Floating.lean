import DocLayout.Decimal.Shortest

/-! # Floating-point numbers

How a floating-point number is written and read.

* **Written.**  The shortest decimal that reads back.  It is written in positions, with at least
  one digit after the point, if the exponent of its first digit is at least -4 and below 16, and
  otherwise behind its first digit with a signed exponent of two digits or more.
* **Read.**  A decimal with an optional sign, fraction and exponent; `inf` and `nan` besides. -/

namespace DocLayout.Floating

/-- Positive infinity. -/
def infinity : Float := 1.0 / 0.0

/-- Whether a number is positive infinity. -/
def isInfinity (x : Float) : Bool := x == infinity

/-- Whether a number has a minus sign; zero may have one. -/
def isNegative (x : Float) : Bool := decide (9223372036854775808 ≤ x.toBits.toNat)

/-- The size of a number that is finite, as its significand and its exponent field. -/
def significand? (x : Float) : Option (Nat × Nat) := Decimal.significand? x.toBits.toNat

/-- The whole number that a number is, if it is one. -/
def toInt? (x : Float) : Option Int :=
  match significand? x with
  | none => none
  | some (m, field) =>
    let size := m * Nat.pow 2 (field - 1075)
    let den := Nat.pow 2 (1075 - field)
    if size % den = 0 then
      some (if isNegative x then -((size / den : Nat) : Int) else ((size / den : Nat) : Int))
    else none

/-- A row of zeros. -/
def zeros (n : Nat) : List Char := List.replicate n '0'

/-- The exponent of a number in scientific form: a sign and two digits or more. -/
def writtenExponent (e : Int) : List Char :=
  let ds := Nat.toDigits 10 e.natAbs
  (if e < 0 then '-' else '+') :: (zeros (2 - ds.length) ++ ds)

/-- Digits laid out with the decimal point behind the first `point` of them. -/
def layOut (ds : List Char) (point : Int) : List Char :=
  if -4 < point ∧ point ≤ 16 then
    if point ≤ 0 then '0' :: '.' :: (zeros (-point).toNat ++ ds)
    else if ds.length ≤ point.toNat then ds ++ zeros (point.toNat - ds.length) ++ ['.', '0']
    else ds.take point.toNat ++ '.' :: ds.drop point.toNat
  else
    let fraction := ds.drop 1
    ds.take 1 ++ (if fraction = [] then [] else '.' :: fraction) ++
      'e' :: writtenExponent (point - 1)

/-- The digits of a decimal without zeros at their end. -/
def significantDigits (d : Decimal.Numeral) : List Char :=
  ((Nat.toDigits 10 d.digits).reverse.dropWhile fun c => c == '0').reverse

/-- The written form of a finite number without its sign. -/
def writtenSize (m field : Nat) : List Char :=
  if m = 0 then ['0', '.', '0']
  else
    let d := (Decimal.Interval.ofSignificand m field).shortest
    layOut (significantDigits d) (Decimal.digitCount d.digits + d.exponent)

/-- The written form of a number. -/
def written (x : Float) : String :=
  match significand? x with
  | some (m, field) =>
    String.ofList ((if isNegative x then ['-'] else []) ++ writtenSize m field)
  | none => if x.isNaN then "nan" else if isNegative x then "-inf" else "inf"

/-- The value of a row of decimal digits. -/
def natOfDigits (ds : List Char) : Nat :=
  ds.foldl (fun n d => 10 * n + (d.toNat - '0'.toNat)) 0

/-- The value of a row of decimal digits with an optional sign. -/
def intOfDigits : List Char → Int
  | '-' :: ds => -(natOfDigits ds : Int)
  | '+' :: ds => natOfDigits ds
  | ds => natOfDigits ds

/-- The number of a decimal without a sign: digits, a fraction if a point follows, and a power of
ten if an `e` follows. -/
def readUnsigned (cs : List Char) : Float :=
  let whole := cs.takeWhile Char.isDigit
  let rest := cs.dropWhile Char.isDigit
  let fraction := match rest with
    | '.' :: r => r.takeWhile Char.isDigit
    | _ => []
  let power := match rest.dropWhile (fun c => c != 'e') with
    | 'e' :: r => intOfDigits r
    | _ => 0
  let exponent : Int := power - fraction.length
  Float.ofScientific (natOfDigits (whole ++ fraction)) (decide (exponent < 0)) exponent.natAbs

/-- The number that is written so. -/
def read (s : String) : Float :=
  match s.toList with
  | ['i', 'n', 'f'] => infinity
  | ['-', 'i', 'n', 'f'] => -infinity
  | ['n', 'a', 'n'] => 0.0 / 0.0
  | '-' :: cs => -readUnsigned cs
  | cs => readUnsigned cs

end DocLayout.Floating
