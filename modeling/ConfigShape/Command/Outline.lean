import ConfigShape.Command.Invocation
import ConfigShape.Text.Quoted

namespace ConfigShape

inductive Outline where
  | word (s : String)
  | list (items : List Outline)
  | call (name : String) (items : List Outline)
  | record (name : String) (fields : List (String × Outline))

namespace Outline

def margin (depth : Nat) : String := String.ofList (List.replicate (4 * depth) ' ')

mutual
def write (depth : Nat) : Outline → String
  | .word s => s
  | .list [] => "[]"
  | .list items => "[\n" ++ writeItems (depth + 1) items ++ margin depth ++ "]"
  | .call name items => name ++ "(\n" ++ writeItems (depth + 1) items ++ margin depth ++ ")"
  | .record name fields =>
    name ++ " \x7b\n" ++ writeFields (depth + 1) fields ++ margin depth ++ "\x7d"

def writeItems (depth : Nat) : List Outline → String
  | [] => ""
  | o :: rest => margin depth ++ o.write depth ++ ",\n" ++ writeItems depth rest

def writeFields (depth : Nat) : List (String × Outline) → String
  | [] => ""
  | (name, o) :: rest =>
    margin depth ++ name ++ ": " ++ o.write depth ++ ",\n" ++ writeFields depth rest
end

def text (o : Outline) : String := o.write 0

def ofBool (b : Bool) : Outline := .word (if b then "true" else "false")

def ofString (s : String) : Outline := .word (Text.quoted s)

def ofOption {α : Type} (f : α → Outline) : Option α → Outline
  | none => .word "None"
  | some a => .call "Some" [f a]

def ofKey : Key → Outline
  | .name s => .call "Name" [ofString s]
  | .index i => .call "Index" [.word (toString i.toNat)]

def ofPath (path : KeyPath) : Outline := .call "KeyPath" [.list (path.map ofKey)]

def ofInputs (i : Inputs) : Outline :=
  .record "InputSettings"
    [("select", ofOption ofPath i.select?), ("input", .list (i.patterns.map ofString))]

def ofFormat : OutputFormat → Outline
  | .json => .word "Json"
  | .yaml => .word "Yaml"

def ofCommand : Invocation → Outline
  | .normalize n =>
    .call "Normalize"
      [.record "NormalizeOut"
        [("input_settings", ofInputs n.inputs), ("profile", ofOption ofString n.profile?),
          ("format", ofFormat n.format), ("out", ofOption ofString n.out?),
          ("no_op", ofBool n.idle)]]
  | .classify c =>
    .call "Classify"
      [.record "ClassifyOut" [("input_settings", ofInputs c.inputs), ("no_op", ofBool c.idle)]]

def ofInvocation (i : Invocation) : Outline :=
  .record "CommandLineInterface" [("cmd", ofCommand i)]

end Outline

end ConfigShape
