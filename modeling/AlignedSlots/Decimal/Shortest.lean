/-!
# Shortest decimals

The fewest decimal digits that read back as a binary number.  A binary number is `m * 2 ^ q`; the
reals that round to it form an interval, whose ends belong to it when `m` is even.  For one digit, two
digits and so on, the two neighbours of the number on the decimal grid with that many digits are
tried: the first grid with a neighbour in the interval wins, of two such neighbours the nearer, and of
two equally near the greater.
-/

namespace AlignedSlots

-- Powers of numbers are those of the core library here, whatever a module below imports.
attribute [local instance (high)] instPowNat

namespace Decimal

/-- A positive decimal: the digits, the first one not zero, and the power of ten of the first digit.
It stands for `d.ddd * 10 ^ exponent`. -/
structure Digits where
  digits : List Nat
  exponent : Int
  deriving DecidableEq, Repr

/-- An interval around a value, all three over one denominator. -/
structure Interval where
  low : Nat
  value : Nat
  high : Nat
  denominator : Nat
  closed : Bool

/-- The interval of the reals that round to `m * 2 ^ q`.  The spacing of the binary numbers below it
is half of the spacing above it where `narrowBelow` holds. -/
def Interval.around (m : Nat) (q : Int) (narrowBelow : Bool) : Interval :=
  let scale := 2 ^ (q - 2).toNat
  { low := (4 * m - (if narrowBelow then 1 else 2)) * scale
    value := 4 * m * scale
    high := (4 * m + 2) * scale
    denominator := 2 ^ (2 - q).toNat
    closed := m % 2 == 0 }

/-- The number `count * 10 ^ exponent` lies in the interval. -/
def Interval.holds (r : Interval) (count : Nat) (exponent : Int) : Bool :=
  let x := count * 10 ^ exponent.toNat * r.denominator
  let unit := 10 ^ (-exponent).toNat
  if r.closed then r.low * unit ≤ x && x ≤ r.high * unit
  else r.low * unit < x && x < r.high * unit

/-- The two neighbours of the value on the grid of the multiples of `10 ^ exponent`, and whether the
upper one is at least as near. -/
def Interval.neighbours (r : Interval) (exponent : Int) : Nat × Bool :=
  let x := r.value * 10 ^ (-exponent).toNat
  let step := r.denominator * 10 ^ exponent.toNat
  (x / step, decide (step ≤ 2 * (x % step)))

/-- The point of the grid of `10 ^ exponent` that stands for the value, if one does. -/
def Interval.onGrid (r : Interval) (exponent : Int) : Option Nat :=
  let (below, upper) := r.neighbours exponent
  match r.holds below exponent, r.holds (below + 1) exponent with
  | true, true => some (if upper then below + 1 else below)
  | true, false => some below
  | false, true => some (below + 1)
  | false, false => none

/-- The power of ten of the first digit of the value, at most `start`. -/
def Interval.leading (r : Interval) : (fuel : Nat) → (start : Int) → Int
  | 0, k => k
  | fuel + 1, k =>
    if r.denominator * 10 ^ k.toNat ≤ r.value * 10 ^ (-k).toNat then k
    else r.leading fuel (k - 1)

/-- The digits of a positive number without closing zeros, and how many digits it has. -/
def digitsOf (n : Nat) : List Nat × Nat :=
  let all := (Nat.toDigits 10 n).map (fun c => c.toNat - '0'.toNat)
  ((all.reverse.dropWhile (· == 0)).reverse, all.length)

/-- The first grid with a hit, among those with at most `fuel` further digits. -/
def Interval.shortest (r : Interval) : (fuel : Nat) → (exponent : Int) → Option Digits
  | 0, _ => none
  | fuel + 1, exponent =>
    match r.onGrid exponent with
    | some n =>
      let (digits, length) := digitsOf n
      some ⟨digits, exponent + length - 1⟩
    | none => r.shortest fuel (exponent - 1)

end Decimal

end AlignedSlots
