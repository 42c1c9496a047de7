import AlignedSlots.Decimal.Shortest

/-!
# Binary floating point with 32 bits

A `Binary32` is its bit pattern: a sign, eight bits of exponent and 23 bits of fraction.  It is
compared as a number (a NaN differs from everything, the two zeros are equal), and written with the
fewest digits that read back, positionally from `1e-4` up to but not including `1e16`.
-/

namespace AlignedSlots

-- Powers of numbers are those of the core library here, whatever a module below imports.
attribute [local instance (high)] instPowNat

/-- A floating-point number of 32 bits, held as its bits. -/
structure Binary32 where
  bits : BitVec 32
  deriving DecidableEq, Inhabited

namespace Binary32

/-- The biased exponent. -/
def exponent (x : Binary32) : Nat := (x.bits.extractLsb' 23 8).toNat

/-- The fraction. -/
def fraction (x : Binary32) : Nat := (x.bits.extractLsb' 0 23).toNat

/-- The sign bit. -/
def negative (x : Binary32) : Bool := x.bits.msb

/-- Not a number. -/
def isNaN (x : Binary32) : Bool := x.exponent == 255 && x.fraction != 0

/-- One of the two infinities. -/
def isInfinite (x : Binary32) : Bool := x.exponent == 255 && x.fraction == 0

/-- One of the two zeros. -/
def isZero (x : Binary32) : Bool := x.exponent == 0 && x.fraction == 0

/-- Equality of numbers. -/
def equal (x y : Binary32) : Bool :=
  !x.isNaN && !y.isNaN && (x.bits == y.bits || (x.isZero && y.isZero))

instance : BEq Binary32 := ⟨equal⟩

/-- The reals that round to a finite number other than zero. -/
def interval (x : Binary32) : Decimal.Interval :=
  if x.exponent = 0 then Decimal.Interval.around x.fraction (-149) false
  else
    Decimal.Interval.around (2 ^ (23 : Nat) + x.fraction) (x.exponent - 150)
      (x.fraction == 0 && 1 < x.exponent)

/-- The shortest digits of a finite number other than zero.  Nine digits always suffice, and no
number of this format reaches `10 ^ 39`. -/
def shortest (x : Binary32) : Decimal.Digits :=
  let r := x.interval
  ((r.shortest 10 (r.leading 90 39)).getD ⟨[0], 0⟩)

/-- How such numbers are written: positionally while the power of ten of the first digit is in this
range, and in scientific form elsewhere. -/
def positionalRange : Int × Int := (-4, 15)

/-- Digits as characters. -/
def digitChars (digits : List Nat) : List Char :=
  digits.map (fun d => Char.ofNat ('0'.toNat + d))

/-- Positional form, with at least one digit after the point. -/
def positional (d : Decimal.Digits) : List Char :=
  let cs := digitChars d.digits
  if d.exponent < 0 then
    "0.".toList ++ List.replicate (-d.exponent - 1).toNat '0' ++ cs
  else
    let whole := d.exponent.toNat + 1
    let front := cs.take whole ++ List.replicate (whole - cs.length) '0'
    let back := cs.drop whole
    front ++ '.' :: (if back.isEmpty then ['0'] else back)

/-- Scientific form: a point only before further digits, and a sign in the exponent only if it is
negative. -/
def scientific (d : Decimal.Digits) : List Char :=
  let front :=
    match digitChars d.digits with
    | [] => []
    | [c] => [c]
    | c :: cs => c :: '.' :: cs
  front ++ 'e' :: (toString d.exponent).toList

/-- The text of a number. -/
def text (x : Binary32) : String :=
  if x.isNaN then "NaN"
  else
    let magnitude :=
      if x.isInfinite then "inf".toList
      else if x.isZero then "0.0".toList
      else
        let d := x.shortest
        if positionalRange.1 ≤ d.exponent && d.exponent ≤ positionalRange.2 then positional d
        else scientific d
    String.ofList (if x.negative then '-' :: magnitude else magnitude)

end Binary32

end AlignedSlots
