import ConfigShape.Node.Path
import ConfigShape.Json.Printer
import ConfigShape.Notice

namespace ConfigShape

namespace Node

def toItems : Node → List Node
  | .seq items => items
  | .scalar .null => []
  | .map [] => []
  | n => [n]

def wrap (key : String) (n : Node) : Entries Node := [(key, .seq n.toItems)]

def toEntries (key? : Option String) : Node → Entries Node
  | .map (e :: es) => e :: es
  | n =>
    match key? with
    | some key => wrap key n
    | none => []

def toEntriesNotices (key? : Option String) : Node → List Notice
  | .map (_ :: _) => []
  | n =>
    match key? with
    | some _ => []
    | none => [.dropped n.text]

def isOwnMap (key : String) (others : List String) (es : Entries Node) : Bool :=
  es.contains key || others.any (fun k => k != key && es.contains k)

def settle (key : String) (es : Entries Node) : Entries Node :=
  match es.get? key with
  | some n => es.insert key (.seq n.toItems)
  | none => es.insert key (.seq [])

/-- A section's own map keeps its entries; any other map, and anything else, becomes the value of
the prefix key. That value is always a sequence. Without a prefix key the node stays as it is. -/
def toPrefixMap (key? : Option String) (others : List String) (n : Node) : Node :=
  match key? with
  | none => n
  | some key =>
    match n with
    | .map (e :: es) =>
      let entries : Entries Node := e :: es
      if isOwnMap key others entries then .map (settle key entries)
      else .map (settle key [(key, .map entries)])
    | _ => .map (wrap key n)

def toPrefixMapNotices (key? : Option String) (others : List String) (n : Node) : List Notice :=
  match key? with
  | none => []
  | some key =>
    match n with
    | .map (e :: es) => if isOwnMap key others (e :: es) then [] else [.wrapped key]
    | _ => []

def plainText? : Node → Option String
  | .scalar .null => none
  | .scalar (.bool b) => some (if b then "true" else "false")
  | .scalar (.number n) => some (n.text Number.jsonLayout)
  | .scalar (.string s) => some s
  | n => some n.text

def firstItem? : Node → Option Node
  | .seq items => items.head?
  | n => some n

/-- One string: of a map that is not empty its value under `key?`, of a sequence its first item. -/
def toString? (key? : Option String) (n : Node) : Option String :=
  let chosen :=
    if n.isMap then key?.bind (fun key => n.item? [.name key])
    else some n
  (chosen.bind firstItem?).bind plainText?

def ofString? : Option String → Node
  | some s => .string s
  | none => .null

end Node

end ConfigShape
