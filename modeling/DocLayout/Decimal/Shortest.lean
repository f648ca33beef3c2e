/-! # Shortest decimals

A finite floating-point number is the nearest one to every real number of an interval around it.
A decimal in that interval reads back as the number, and the shortest decimal is the one in it with
the fewest digits; of two that are equally short it is the nearer one, and of two that are equally
near the one whose last digit is even.

All is computed with natural numbers: an interval keeps its ends and the number itself as multiples
of one fraction (`Interval.den`), and a decimal is compared with an end by multiplying out. -/

namespace DocLayout.Decimal

/-- The real numbers that read back as a given number.  The ends and the number itself are
multiples of `1 / den`. -/
structure Interval where
  lower : Nat
  value : Nat
  upper : Nat
  den : Nat
  /-- Whether the ends read back as the number too. -/
  closed : Bool

/-- A decimal: `digits` times ten to the power `exponent`. -/
structure Numeral where
  digits : Nat
  exponent : Int
  deriving DecidableEq, Repr

/-- Two to the power of the number of stored bits of a significand. -/
def significandRange : Nat := 4503599627370496

/-- Ten to a power. -/
def tenTo (k : Nat) : Nat := Nat.pow 10 k

/-- The significand and the exponent field of the bits of a number, which is `none` for an infinity
and for what is no number.  The sign is left out, and the field is at least one. -/
def significand? (bits : Nat) : Option (Nat × Nat) :=
  let field := bits / significandRange % 2048
  let stored := bits % significandRange
  if field = 2047 then none
  else if field = 0 then some (stored, 1)
  else some (significandRange + stored, field)

/-- The interval of a number, given by its significand and its exponent field.  Half the gap to the
next number is two units, and below a power of two it is one. -/
def Interval.ofSignificand (m field : Nat) : Interval :=
  let scale := Nat.pow 2 (field - 1077)
  let gapBelow := if m = significandRange ∧ 1 < field then 1 else 2
  { lower := (4 * m - gapBelow) * scale
    value := 4 * m * scale
    upper := (4 * m + 2) * scale
    den := Nat.pow 2 (1077 - field)
    closed := m % 2 == 0 }

/-- Compares a decimal with a multiple of `1 / den`. -/
def Numeral.compareWith (d : Numeral) (multiple den : Nat) : Ordering :=
  compare (d.digits * tenTo d.exponent.toNat * den) (multiple * tenTo (-d.exponent).toNat)

/-- Whether a decimal lies in an interval. -/
def Interval.contains (i : Interval) (d : Numeral) : Bool :=
  match d.compareWith i.lower i.den, d.compareWith i.upper i.den with
  | .gt, .lt => true
  | .eq, .lt => i.closed
  | .gt, .eq => i.closed
  | _, _ => false

/-- Number of decimal digits. -/
def digitCount (n : Nat) : Nat := (Nat.toDigits 10 n).length

/-- The least exponent of ten above a number that is not zero. -/
def Interval.magnitude (i : Interval) : Int :=
  if i.den ≤ i.value then digitCount (i.value / i.den)
  else 1 - (digitCount ((i.den - 1) / i.value) : Int)

/-- The decimal of some exponent that lies in the interval, if there is one. -/
def Interval.onGrid (i : Interval) (exponent : Int) : Option Numeral :=
  let below := i.value * tenTo (-exponent).toNat / (i.den * tenTo exponent.toNat)
  let down : Numeral := ⟨below, exponent⟩
  let up : Numeral := ⟨below + 1, exponent⟩
  match i.contains down, i.contains up with
  | true, false => some down
  | false, true => some up
  | false, false => none
  | true, true =>
    match Numeral.compareWith ⟨2 * below + 1, exponent⟩ (2 * i.value) i.den with
    | .gt => some down
    | .lt => some up
    | .eq => some (if below % 2 = 0 then down else up)

/-- The number itself as a decimal. -/
def Interval.exact (i : Interval) : Numeral :=
  let places := i.den.log2
  ⟨i.value * Nat.pow 5 places, -(places : Int)⟩

/-- The shortest decimal of an interval around a number that is not zero.  Seventeen digits are
enough for every floating-point number. -/
def Interval.shortest (i : Interval) : Numeral :=
  let candidate := (List.range 17).findSome? fun n => i.onGrid (i.magnitude - (n + 1 : Nat))
  candidate.getD i.exact

end DocLayout.Decimal
