import ConfigShape.Yaml.Basic

namespace ConfigShape

inductive MergeFault where
  | scalar
  | tagged
  | scalarItem
  | sequenceItem
deriving DecidableEq, Repr

def MergeFault.message : MergeFault → String
  | .scalar => "expected a mapping or list of mappings for merging, but found scalar"
  | .tagged => "unexpected tagged value in merge"
  | .scalarItem => "expected a mapping for merging, but found scalar"
  | .sequenceItem => "expected a mapping for merging, but found sequence"

namespace Yaml

def isMergeKey : Yaml → Bool
  | .string s => s == "<<"
  | _ => false

def fill (es new : List (Yaml × Yaml)) : List (Yaml × Yaml) :=
  new.foldl (fun acc e => if hasKey e.1 acc then acc else acc ++ [e]) es

def fillAll (es : List (Yaml × Yaml)) : List Yaml → Except MergeFault (List (Yaml × Yaml))
  | [] => .ok es
  | .map new :: rest => fillAll (fill es new) rest
  | .seq _ :: _ => .error .sequenceItem
  | .tagged _ _ :: _ => .error .tagged
  | _ :: _ => .error .scalarItem

/-- The merge key is taken out as a swap removal takes an entry out: the last entry moves into its
place. -/
def dropMergeKey : List (Yaml × Yaml) → List (Yaml × Yaml)
  | [] => []
  | e :: rest =>
    if isMergeKey e.1 then rest.getLast?.toList ++ rest.dropLast else e :: dropMergeKey rest

def absorb (es : List (Yaml × Yaml)) : Except MergeFault (List (Yaml × Yaml)) :=
  let own := dropMergeKey es
  match es.find? (fun e => isMergeKey e.1) with
  | none => .ok es
  | some (_, .map new) => .ok (fill own new)
  | some (_, .seq items) => fillAll own items
  | some (_, .tagged _ _) => .error .tagged
  | some _ => .error .scalar

def mapValues (f : Yaml → Except MergeFault Yaml) :
    List (Yaml × Yaml) → Except MergeFault (List (Yaml × Yaml))
  | [] => .ok []
  | (k, v) :: rest => do
    let rest ← mapValues f rest
    .ok ((k, ← f v) :: rest)

def mapItems (f : Yaml → Except MergeFault Yaml) : List Yaml → Except MergeFault (List Yaml)
  | [] => .ok []
  | v :: rest => do
    let rest ← mapItems f rest
    .ok ((← f v) :: rest)

/-- Merges down to a depth, a mapping before its values. A merge key that a merge brings in is kept
as an ordinary key. -/
def mergeTo : Nat → Yaml → Except MergeFault Yaml
  | 0, v => .ok v
  | depth + 1, .map es => do .ok (.map (← mapValues (mergeTo depth) (← absorb es)))
  | depth + 1, .seq items => do .ok (.seq (← mapItems (mergeTo depth) items))
  | depth + 1, .tagged tag v => do .ok (.tagged tag (← mergeTo depth v))
  | _ + 1, v => .ok v

def merge (v : Yaml) : Except MergeFault Yaml := mergeTo v.depth v

end Yaml

end ConfigShape
