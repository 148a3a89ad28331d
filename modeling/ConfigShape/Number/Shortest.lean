import ConfigShape.Number.Double

namespace ConfigShape

structure Decimal where
  digits : Nat
  exp : Int
deriving DecidableEq, Repr

namespace Decimal

def compareScaled (a : Nat) (i : Int) (n : Nat) (j : Int) : Ordering :=
  compare (a * Nat.pow 10 i.toNat * Nat.pow 2 (-j).toNat)
    (n * Nat.pow 2 j.toNat * Nat.pow 10 (-i).toNat)

/-- The decimal lies among the reals that round to the magnitude of `d`: the interval between
the halfway points to its neighbours, whose ends belong to the even significand. -/
def readsBack (d : Double) (x : Decimal) : Bool :=
  let m := d.significand
  let low := if d.ordinal % Double.binade = 0 ∧ 2 * Double.binade ≤ d.ordinal then 4 * m - 1
    else 4 * m - 2
  let below := compareScaled x.digits x.exp low (d.exponent - 2)
  let above := compareScaled x.digits x.exp (4 * m + 2) (d.exponent - 2)
  let even := m % 2 = 0
  (below == .gt || (even && below == .eq)) && (above == .lt || (even && above == .eq))

def onGrid? (d : Double) (exp : Int) : Option Decimal :=
  let num := d.numerator * Nat.pow 10 (-exp).toNat
  let den := d.denominator * Nat.pow 10 exp.toNat
  let down : Decimal := ⟨num / den, exp⟩
  let up : Decimal := ⟨num / den + 1, exp⟩
  match readsBack d down && down.digits != 0, readsBack d up with
  -- the nearer one, and the even one if both are as near
  | true, true => some (if Double.roundDiv num den = down.digits then down else up)
  | true, false => some down
  | false, true => some up
  | false, false => none

def strip : Nat → Decimal → Decimal
  | 0, x => x
  | fuel + 1, x => if x.digits % 10 = 0 then strip fuel ⟨x.digits / 10, x.exp + 1⟩ else x

def scale (d : Double) : Int :=
  let bits : Int := (d.significand.log2 : Int) + 1 + d.exponent
  let guess : Int := (bits - 1) * 30103 / 100000
  let fits (k : Int) : Bool :=
    d.numerator * Nat.pow 10 (-k).toNat < d.denominator * Nat.pow 10 k.toNat
  ((List.range 4).map (fun (i : Nat) => guess - 1 + (i : Int))).find? fits |>.getD (guess + 3)

/-- The fewest digits that read back as the magnitude of `d`, and of these the nearest. -/
def shortest (d : Double) : Decimal :=
  if d.isZero then ⟨0, 0⟩
  else
    let k := scale d
    match (List.range 17).findSome? (fun n => onGrid? d (k - (n + 1 : Nat))) with
    | some x => strip 17 x
    | none =>
      ⟨d.significand * Nat.pow 5 (-d.exponent).toNat * Nat.pow 2 d.exponent.toNat, min d.exponent 0⟩

structure Layout where
  plainFrom : Int
  plainBelow : Int
  positiveMark : String

def positional (digits : List Char) (point : Int) : List Char :=
  if point ≤ 0 then '0' :: '.' :: (List.replicate (-point).toNat '0' ++ digits)
  else
    let whole := point.toNat
    let padded := digits ++ List.replicate (whole - digits.length) '0'
    let fraction := padded.drop whole
    padded.take whole ++ '.' :: (if fraction.isEmpty then ['0'] else fraction)

def scientific (layout : Layout) (digits : List Char) (lead : Int) : List Char :=
  let mantissa := match digits with
    | c :: rest@(_ :: _) => c :: '.' :: rest
    | _ => digits
  let mark := if lead < 0 then "-" else layout.positiveMark
  mantissa ++ 'e' :: (mark.toList ++ Nat.toDigits 10 lead.natAbs)

def write (layout : Layout) (x : Decimal) : List Char :=
  if x.digits = 0 then ['0', '.', '0']
  else
    let digits := Nat.toDigits 10 x.digits
    let lead : Int := x.exp + digits.length - 1
    if layout.plainFrom ≤ lead ∧ lead < layout.plainBelow then positional digits (lead + 1)
    else scientific layout digits lead

end Decimal

def Double.text (layout : Decimal.Layout) (d : Double) : String :=
  let magnitude := Decimal.write layout (Decimal.shortest d)
  String.ofList (if d.negative then '-' :: magnitude else magnitude)

end ConfigShape
