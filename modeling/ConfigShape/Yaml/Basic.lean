import ConfigShape.Number.Basic

namespace ConfigShape

inductive YamlNumber where
  | int (i : Integer)
  | float (d : Double)
  | infinite (negative : Bool)
  | nan
deriving DecidableEq, Repr

inductive Yaml where
  | null
  | bool (b : Bool)
  | number (n : YamlNumber)
  | string (s : String)
  | seq (items : List Yaml)
  | map (entries : List (Yaml × Yaml))
  | tagged (tag : String) (value : Yaml)

instance : Inhabited Yaml := ⟨.null⟩

namespace YamlNumber

/-- Not-a-number is the same as itself. -/
def same : YamlNumber → YamlNumber → Bool
  | .float a, .float b => a.same b
  | a, b => a == b

def text : YamlNumber → String
  | .int i => i.text
  | .float d => d.text Number.yamlLayout
  | .infinite negative => if negative then "-.inf" else ".inf"
  | .nan => ".nan"

end YamlNumber

namespace Yaml

def bareTag (tag : String) : List Char :=
  match tag.toList with
  | '!' :: c :: rest => c :: rest
  | cs => cs

mutual
def same : Yaml → Yaml → Bool
  | .null, .null => true
  | .bool a, .bool b => a == b
  | .number a, .number b => a.same b
  | .string a, .string b => a == b
  | .seq xs, .seq ys => sameItems xs ys
  | .map es, .map fs => es.length == fs.length && sameEntries es fs
  | .tagged s a, .tagged t b => bareTag s == bareTag t && a.same b
  | _, _ => false

def sameItems : List Yaml → List Yaml → Bool
  | [], [] => true
  | x :: xs, y :: ys => x.same y && sameItems xs ys
  | _, _ => false

def sameEntries : List (Yaml × Yaml) → List (Yaml × Yaml) → Bool
  | [], _ => true
  | (k, v) :: rest, fs =>
    (match fs.find? (fun e => k.same e.1) with
      | some e => v.same e.2
      | none => false) && sameEntries rest fs
end

def hasKey (key : Yaml) (es : List (Yaml × Yaml)) : Bool := es.any (fun e => key.same e.1)

def insert (key value : Yaml) : List (Yaml × Yaml) → List (Yaml × Yaml)
  | [] => [(key, value)]
  | (k, v) :: rest => if key.same k then (k, value) :: rest else (k, v) :: insert key value rest

mutual
def depth : Yaml → Nat
  | .seq items => depthOfItems items + 1
  | .map es => depthOfEntries es + 1
  | .tagged _ v => v.depth + 1
  | _ => 0

def depthOfItems : List Yaml → Nat
  | [] => 0
  | v :: rest => max v.depth (depthOfItems rest)

def depthOfEntries : List (Yaml × Yaml) → Nat
  | [] => 0
  | (_, v) :: rest => max v.depth (depthOfEntries rest)
end

end Yaml

end ConfigShape
