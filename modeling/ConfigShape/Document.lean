import ConfigShape.Json.Reader
import ConfigShape.Notice
import ConfigShape.Raw.Json
import ConfigShape.Raw.Yaml
import ConfigShape.Yaml.Reader

namespace ConfigShape

inductive DecodeFault where
  | json (e : Json.Error)
  | yaml (f : YamlFault)
  | shape (f : ShapeFault)

namespace DecodeFault

def cause? : DecodeFault → Option String
  | .json e => some e.message
  | .yaml f => f.message?
  | .shape _ => none

/-- The words for a fault. The place of a fault in YAML text is not told. -/
def message? : DecodeFault → Option String
  | .json e => some ("invalid JSON: " ++ e.message)
  | .yaml f => f.message?.map ("invalid YAML: " ++ ·)
  | .shape f => some f.message

def notices : DecodeFault → List Notice
  | .shape (.mixedKeys path) => [.mixedKeys path]
  | _ => []

end DecodeFault

namespace Node

def ofJsonText (text : String) : Except DecodeFault Node := do
  let v ← (Json.parse text).mapError .json
  (Raw.ofJson v).lift.mapError .shape

def ofYamlText (text : String) : Except DecodeFault Node := do
  let v ← (Yaml.parse text).mapError .yaml
  let raw ← (Raw.ofYaml v).mapError .shape
  raw.lift.mapError .shape

end Node

def decodeNotices : Except DecodeFault Node → List Notice
  | .ok _ => []
  | .error f => f.notices

end ConfigShape
