import ConfigShape.Number.Basic
import ConfigShape.Entries

namespace ConfigShape

inductive Scalar where
  | null
  | bool (b : Bool)
  | number (n : Number)
  | string (s : String)
deriving DecidableEq, Repr

inductive Node where
  | scalar (s : Scalar)
  | seq (items : List Node)
  | map (entries : List (String × Node))

inductive Shape where
  | empty
  | sequence
  | map
  | mixed
deriving DecidableEq, Repr

def Shape.label : Shape → String
  | .empty => "empty"
  | .sequence => "sequence"
  | .map => "map"
  | .mixed => "mixed"

namespace Node

abbrev null : Node := .scalar .null

abbrev string (s : String) : Node := .scalar (.string s)

instance : Inhabited Node := ⟨null⟩

def isNull : Node → Bool
  | .scalar .null => true
  | _ => false

def isScalar : Node → Bool
  | .scalar _ => true
  | _ => false

def isContainer (n : Node) : Bool := !n.isScalar

def isMap : Node → Bool
  | .map es => !es.isEmpty
  | _ => false

def isSequence : Node → Bool
  | .seq items => !items.isEmpty
  | _ => false

def isEmptyContainer : Node → Bool
  | .scalar _ => false
  | .seq items => items.isEmpty
  | .map es => es.isEmpty

def shape? : Node → Option Shape
  | .scalar _ => none
  | .seq items => some (if items.isEmpty then .empty else .sequence)
  | .map es => some (if es.isEmpty then .empty else .map)

def string? : Node → Option String
  | .scalar (.string s) => some s
  | _ => none

mutual
def WellFormed : Node → Prop
  | .scalar _ => True
  | .seq items => wellFormedItems items
  | .map es => Entries.Distinct es ∧ wellFormedEntries es

def wellFormedItems : List Node → Prop
  | [] => True
  | n :: rest => n.WellFormed ∧ wellFormedItems rest

def wellFormedEntries : List (String × Node) → Prop
  | [] => True
  | (_, n) :: rest => n.WellFormed ∧ wellFormedEntries rest
end

end Node

def Scalar.same : Scalar → Scalar → Bool
  | .null, .null => true
  | .bool a, .bool b => a == b
  | .number a, .number b => a.same b
  | .string a, .string b => a == b
  | _, _ => false

namespace Node

mutual
/-- Equality of content: the order of map entries does not matter, that of items does. -/
def same : Node → Node → Bool
  | .scalar a, .scalar b => a.same b
  | .seq xs, .seq ys => sameItems xs ys
  | .map es, .map fs => es.length == fs.length && sameEntries es fs
  | _, _ => false

def sameItems : List Node → List Node → Bool
  | [], [] => true
  | x :: xs, y :: ys => x.same y && sameItems xs ys
  | _, _ => false

def sameEntries : List (String × Node) → List (String × Node) → Bool
  | [], _ => true
  | (k, v) :: rest, fs =>
    (match Entries.get? k fs with
      | some w => v.same w
      | none => false) && sameEntries rest fs
end

end Node

end ConfigShape
