import ConfigShape.Node.Basic

namespace ConfigShape

inductive Json where
  | null
  | bool (b : Bool)
  | number (n : Number)
  | string (s : String)
  | array (items : List Json)
  | object (members : List (String × Json))

instance : Inhabited Json := ⟨.null⟩

mutual
/-- Objects become maps and arrays become sequences, whatever their keys. -/
def Node.ofJson : Json → Node
  | .null => .scalar .null
  | .bool b => .scalar (.bool b)
  | .number n => .scalar (.number n)
  | .string s => .scalar (.string s)
  | .array items => .seq (Node.ofJsonItems items)
  | .object members => .map (Node.ofJsonMembers members)

def Node.ofJsonItems : List Json → List Node
  | [] => []
  | v :: rest => Node.ofJson v :: Node.ofJsonItems rest

def Node.ofJsonMembers : List (String × Json) → List (String × Node)
  | [] => []
  | (k, v) :: rest => (k, Node.ofJson v) :: Node.ofJsonMembers rest
end

def Scalar.toJson : Scalar → Json
  | .null => .null
  | .bool b => .bool b
  | .number n => .number n
  | .string s => .string s

mutual
def Node.toJson : Node → Json
  | .scalar s => s.toJson
  | .seq items => .array (Node.toJsonItems items)
  | .map es => .object (Node.toJsonMembers es)

def Node.toJsonItems : List Node → List Json
  | [] => []
  | n :: rest => n.toJson :: Node.toJsonItems rest

def Node.toJsonMembers : List (String × Node) → List (String × Json)
  | [] => []
  | (k, n) :: rest => (k, n.toJson) :: Node.toJsonMembers rest
end

mutual
theorem Node.ofJson_toJson (n : Node) : Node.ofJson n.toJson = n := by
  cases n with
  | scalar s => cases s <;> rfl
  | seq items => simp [Node.toJson, Node.ofJson, Node.ofJsonItems_toJsonItems items]
  | map es => simp [Node.toJson, Node.ofJson, Node.ofJsonMembers_toJsonMembers es]

theorem Node.ofJsonItems_toJsonItems (items : List Node) :
    Node.ofJsonItems (Node.toJsonItems items) = items := by
  cases items with
  | nil => rfl
  | cons n rest =>
    simp [Node.toJsonItems, Node.ofJsonItems, Node.ofJson_toJson n,
      Node.ofJsonItems_toJsonItems rest]

theorem Node.ofJsonMembers_toJsonMembers (es : List (String × Node)) :
    Node.ofJsonMembers (Node.toJsonMembers es) = es := by
  cases es with
  | nil => rfl
  | cons e rest =>
    obtain ⟨k, n⟩ := e
    simp [Node.toJsonMembers, Node.ofJsonMembers, Node.ofJson_toJson n,
      Node.ofJsonMembers_toJsonMembers rest]
end

end ConfigShape
