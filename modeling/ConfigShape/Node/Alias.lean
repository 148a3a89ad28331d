import ConfigShape.Node.Basic
import ConfigShape.Notice

namespace ConfigShape

abbrev AliasTable := Entries String

namespace AliasTable

def givesWay (es : Entries Node) (name target : String) : Bool :=
  match es.position? name, es.position? target with
  | some i, some j => decide (i < j)
  | _, _ => false

/-- Moves the value of one alias to its target. Where keys stand is looked up in `given`, the
entries before anything moved. An alias of itself is left alone. -/
def step (given : Entries Node) (es : Entries Node) (pair : String × String) : Entries Node :=
  if pair.1 = pair.2 || !given.contains pair.1 then es
  else
    match es.get? pair.1 with
    | none => es
    | some value =>
      let rest := es.erase pair.1
      if givesWay given pair.1 pair.2 then rest else rest.insert pair.2 value

def resolve (table : AliasTable) (es : Entries Node) : Entries Node :=
  table.foldl (step es) es

def lost (table : AliasTable) (es : Entries Node) : List (String × String) :=
  table.filter (fun pair => pair.1 != pair.2 && givesWay es pair.1 pair.2)

end AliasTable

namespace Node

def resolveAliases (table : AliasTable) : Node → Node
  | .map es => .map (table.resolve es)
  | n => n

def resolveAliasesNotices (table : AliasTable) : Node → List Notice
  | .map es => (table.lost es).map (fun pair => .aliasDropped pair.1 pair.2)
  | _ => []

def mergeInto (into : Entries Node) (table : AliasTable) (what : Node) : Entries Node :=
  match what.resolveAliases table with
  | .map es => into.extend es
  | _ => into

end Node

end ConfigShape
