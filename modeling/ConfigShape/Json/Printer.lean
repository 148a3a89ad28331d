import ConfigShape.Json.Basic

namespace ConfigShape

namespace Json

def hexChar (n : Nat) : Char := Char.ofNat (if n < 10 then 48 + n else 87 + n)

/-- A character inside a string: only quotes, backslashes and control characters are escaped. -/
def escaped (c : Char) : List Char :=
  if c = '"' then ['\\', '"']
  else if c = '\\' then ['\\', '\\']
  else if c = '\x08' then ['\\', 'b']
  else if c = '\x0c' then ['\\', 'f']
  else if c = '\n' then ['\\', 'n']
  else if c = '\r' then ['\\', 'r']
  else if c = '\t' then ['\\', 't']
  else if c.toNat < 32 then ['\\', 'u', '0', '0', hexChar (c.toNat / 16), hexChar (c.toNat % 16)]
  else [c]

def quote (s : String) : List Char := '"' :: (s.toList.flatMap escaped ++ ['"'])

structure Spacing where
  line : Nat → List Char
  afterColon : List Char

def compact : Spacing where
  line := fun _ => []
  afterColon := []

def indented : Spacing where
  line := fun depth => '\n' :: List.replicate (2 * depth) ' '
  afterColon := [' ']

end Json

open Json

def Scalar.chars : Scalar → List Char
  | .null => "null".toList
  | .bool true => "true".toList
  | .bool false => "false".toList
  | .number n => (n.text Number.jsonLayout).toList
  | .string s => quote s

namespace Node

mutual
def write (sp : Spacing) (depth : Nat) : Node → List Char
  | .scalar s => s.chars
  | .seq [] => ['[', ']']
  | .seq (n :: rest) =>
    '[' :: (sp.line (depth + 1) ++ n.write sp (depth + 1) ++ writeItems sp depth rest)
  | .map [] => ['{', '}']
  | .map ((k, n) :: rest) =>
    '{' :: (sp.line (depth + 1) ++ quote k ++ ':' :: sp.afterColon ++ n.write sp (depth + 1) ++
      writeEntries sp depth rest)

def writeItems (sp : Spacing) (depth : Nat) : List Node → List Char
  | [] => sp.line depth ++ [']']
  | n :: rest =>
    ',' :: (sp.line (depth + 1) ++ n.write sp (depth + 1) ++ writeItems sp depth rest)

def writeEntries (sp : Spacing) (depth : Nat) : List (String × Node) → List Char
  | [] => sp.line depth ++ ['}']
  | (k, n) :: rest =>
    ',' :: (sp.line (depth + 1) ++ quote k ++ ':' :: sp.afterColon ++ n.write sp (depth + 1) ++
      writeEntries sp depth rest)
end

def text (n : Node) : String := String.ofList (n.write compact 0)

def prettyText (n : Node) : String := String.ofList (n.write indented 0)

end Node

end ConfigShape
