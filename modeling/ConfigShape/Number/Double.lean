namespace ConfigShape

def Double.binade : Nat := 0x10_0000_0000_0000

/-- A finite binary64 number, kept exactly: a sign and the position of its magnitude among the
finite magnitudes in increasing order. All arithmetic is done on naturals. -/
structure Double where
  negative : Bool
  ordinal : Nat
  finite : ordinal < 2047 * Double.binade
deriving DecidableEq, Repr

namespace Double

def significand (d : Double) : Nat :=
  if d.ordinal < binade then d.ordinal else binade + d.ordinal % binade

def exponent (d : Double) : Int :=
  if d.ordinal < binade then -1074 else (d.ordinal / binade : Nat) - 1075

def isZero (d : Double) : Bool := d.ordinal == 0

def same (a b : Double) : Bool := (a.isZero && b.isZero) || a == b

def zero (negative : Bool) : Double := ⟨negative, 0, by decide⟩

def neg (d : Double) : Double := { d with negative := !d.negative }

def roundDiv (num den : Nat) : Nat :=
  let q := num / den
  let r := num % den
  if 2 * r < den then q
  else if den < 2 * r then q + 1
  else if q % 2 = 0 then q else q + 1

/-- The binary exponent in whose units `num / den` has 53 bits, but never below that of the
least positive double. -/
def unitOf (num den : Nat) : Int :=
  let guess : Int := (num.log2 : Int) - den.log2 - 52
  let up := Nat.pow 2 guess.toNat
  let down := Nat.pow 2 (-guess).toNat
  let tooWide := decide (2 * binade * den * up ≤ num * down)
  let tooNarrow := decide (num * down < binade * den * up)
  max (-1074) (if tooWide then guess + 1 else if tooNarrow then guess - 1 else guess)

/-- The ordinal of the magnitude nearest to `num / den`, counting on past the finite ones. -/
def nearestOrdinal (num den : Nat) : Nat :=
  let q := unitOf num den
  let m := roundDiv (num * Nat.pow 2 (-q).toNat) (den * Nat.pow 2 q.toNat)
  (q + 1074).toNat * binade + m

def ofRatio? (negative : Bool) (num den : Nat) : Option Double :=
  if num = 0 then some (zero negative)
  else
    let n := nearestOrdinal num den
    if h : n < 2047 * binade then some ⟨negative, n, h⟩ else none

def ofDecimal? (negative : Bool) (digits : Nat) (exp : Int) : Option Double :=
  ofRatio? negative (digits * Nat.pow 10 exp.toNat) (Nat.pow 10 (-exp).toNat)

def ofNat? (n : Nat) : Option Double := ofRatio? false n 1

def numerator (d : Double) : Nat := d.significand * Nat.pow 2 d.exponent.toNat

def denominator (d : Double) : Nat := Nat.pow 2 (-d.exponent).toNat

def mul? (a b : Double) : Option Double :=
  ofRatio? (a.negative != b.negative) (a.numerator * b.numerator) (a.denominator * b.denominator)

def div? (a b : Double) : Option Double :=
  ofRatio? (a.negative != b.negative) (a.numerator * b.denominator) (a.denominator * b.numerator)

def toInt? (d : Double) : Option Int :=
  if d.numerator % d.denominator = 0 then
    let n : Int := (d.numerator / d.denominator : Nat)
    some (if d.negative then -n else n)
  else none

end Double

end ConfigShape
