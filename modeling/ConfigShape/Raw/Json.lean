import ConfigShape.Raw.Basic
import ConfigShape.Json.Basic

namespace ConfigShape.Raw

mutual
def ofJson : Json → Raw
  | .null => .scalar .null
  | .bool b => .scalar (.bool b)
  | .number n => .scalar (.number n)
  | .string s => .scalar (.string s)
  | .array items => .container (ofJsonItems 0 items)
  | .object members => .container (ofJsonMembers members)

def ofJsonItems (i : Int) : List Json → List (RawKey × Raw)
  | [] => []
  | v :: rest => (.index i, ofJson v) :: ofJsonItems (i + 1) rest

def ofJsonMembers : List (String × Json) → List (RawKey × Raw)
  | [] => []
  | (k, v) :: rest => (RawKey.ofName k, ofJson v) :: ofJsonMembers rest
end

end ConfigShape.Raw
