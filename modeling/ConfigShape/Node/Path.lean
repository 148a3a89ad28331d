import ConfigShape.Node.Basic

namespace ConfigShape

inductive Key where
  | name (s : String)
  | index (i : UInt64)
deriving DecidableEq, Repr

abbrev KeyPath := List Key

namespace Key

def decimalValue (digits : List Char) : Nat := digits.foldl (fun n c => n * 10 + (c.toNat - 48)) 0

def index? (cs : List Char) : Option UInt64 :=
  let digits := match cs with
    | '+' :: rest => rest
    | _ => cs
  let value := decimalValue digits
  if !digits.isEmpty && digits.all (fun c => '0' ≤ c && c ≤ '9') && value < UInt64.size then
    some (UInt64.ofNat value)
  else none

def ofSegment (cs : List Char) : Key :=
  match index? cs with
  | some i => .index i
  | none => .name (String.ofList cs)

def text : Key → String
  | .name s => s
  | .index i => toString i.toNat

end Key

namespace KeyPath

def splitDots : List Char → List (List Char)
  | [] => [[]]
  | c :: rest =>
    if c = '.' then [] :: splitDots rest
    else match splitDots rest with
      | part :: parts => (c :: part) :: parts
      | [] => [[c]]

def ofDotted (s : String) : KeyPath :=
  ((splitDots s.toList).filter (fun part => !part.isEmpty)).map Key.ofSegment

def text (path : KeyPath) : String := ".".intercalate (path.map Key.text)

end KeyPath

namespace Node

def get? : Node → Key → Option Node
  | .map es, .name s => Entries.get? s es
  | .seq items, .index i => items[i.toNat]?
  | _, _ => none

/-- Follows a path. Null counts as missing at every step. -/
def item? : Node → KeyPath → Option Node
  | n, [] => some n
  | n, k :: path =>
    match n.get? k with
    | some next => if next.isNull then none else next.item? path
    | none => none

def itemOr (n : Node) (path : KeyPath) (default : Node) : Node := (n.item? path).getD default

end Node

end ConfigShape
