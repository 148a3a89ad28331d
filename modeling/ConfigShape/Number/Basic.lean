import ConfigShape.Number.Shortest

namespace ConfigShape

structure Integer where
  val : Int
  lower : -0x8000_0000_0000_0000 ≤ val
  upper : val < 0x1_0000_0000_0000_0000
deriving DecidableEq, Repr

namespace Integer

def ofInt? (i : Int) : Option Integer :=
  if h : -0x8000_0000_0000_0000 ≤ i ∧ i < 0x1_0000_0000_0000_0000 then some ⟨i, h.1, h.2⟩ else none

theorem ofInt?_val (i : Integer) : ofInt? i.val = some i := by
  have h : -0x8000_0000_0000_0000 ≤ i.val ∧ i.val < 0x1_0000_0000_0000_0000 := ⟨i.lower, i.upper⟩
  simp only [ofInt?, dif_pos h]

def text (i : Integer) : String := toString i.val

end Integer

inductive Number where
  | int (i : Integer)
  | float (d : Double)
deriving DecidableEq, Repr

namespace Number

def same : Number → Number → Bool
  | .int a, .int b => a == b
  | .float a, .float b => a.same b
  | _, _ => false

def ofIntAsFloat (i : Int) : Number :=
  match Double.ofRatio? (decide (i < 0)) i.natAbs 1 with
  | some d => .float d
  | none => .float (Double.zero false)

def ofInt (i : Int) : Number :=
  match Integer.ofInt? i with
  | some n => .int n
  | none => ofIntAsFloat i

/-- In JSON text a double is positional from `0.00001` up to sixteen digits, and the sign of its
exponent is always written. -/
def jsonLayout : Decimal.Layout where
  plainFrom := -5
  plainBelow := 16
  positiveMark := "+"

def yamlLayout : Decimal.Layout where
  plainFrom := -5
  plainBelow := 16
  positiveMark := ""

def text (layout : Decimal.Layout) : Number → String
  | .int i => i.text
  | .float d => d.text layout

end Number

end ConfigShape
