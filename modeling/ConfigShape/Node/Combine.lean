import ConfigShape.Node.Normalize

namespace ConfigShape

namespace Node

def offered? : Node → Option (List Node)
  | .scalar _ => none
  | .seq items => some items
  | .map es => some (Entries.values es)

/-- Adds what `source` holds to `target`. Nothing is added unless both are containers. Entries go
to a map that is not empty, items to a sequence or to an empty map, which then is a sequence. -/
def append (target source : Node) : Node :=
  match target, source with
  | .map (e :: es), .map fs => .map (Entries.extend (e :: es) fs)
  | .map [], source =>
    match source.offered? with
    | some items => .seq items
    | none => target
  | .seq xs, source =>
    match source.offered? with
    | some items => .seq (xs ++ items)
    | none => target
  | target, _ => target

def orNoItems : Option Node → Node
  | none => .seq []
  | some n => if n.isNull then .seq [] else n

end Node

namespace Entries

def append (into : Entries Node) (key : String) (source : Entries Node) : Entries Node :=
  let target := Node.orNoItems (into.get? key)
  match source.get? key with
  | some n => into.insert key (target.append n)
  | none => into.insert key target

def appendNotices (into : Entries Node) (key : String) (source : Entries Node) : List Notice :=
  match into.get? key, source.get? key with
  | some (.map (_ :: _)), some (.seq _) => [.itemsIgnored]
  | _, _ => []

def copyWith (f : Node → Node) (into : Entries Node) (keys : List String) (source : Entries Node) :
    Entries Node :=
  keys.foldl (fun acc key =>
    match source.get? key with
    | some n => acc.insert key (f n)
    | none => acc) into

def copy (into : Entries Node) (keys : List String) (source : Entries Node) : Entries Node :=
  copyWith id into keys source

def copyItems (into : Entries Node) (keys : List String) (source : Entries Node) : Entries Node :=
  copyWith (fun n => .seq n.toItems) into keys source

def removeAll (es : Entries Node) (keys : List String) : Entries Node :=
  keys.foldl (fun acc key => acc.erase key) es

end Entries

abbrev AllowList := List Node

namespace AllowList

def allows (allowed : AllowList) (n : Node) : Bool := allowed.any (fun a => a.same n)

def keep (allowed : AllowList) (items : List Node) : List Node := items.filter allowed.allows

def accept? (allowed : AllowList) (n : Node) : Option Node :=
  if allowed.allows n then some n else none

end AllowList

end ConfigShape
