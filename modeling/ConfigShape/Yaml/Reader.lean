import ConfigShape.Yaml.Merge
import ConfigShape.Yaml.Plain
import ConfigShape.Yaml.Tape

namespace ConfigShape

inductive YamlFault where
  | inText
  | manyDocuments
  | repetition
  | merge (f : MergeFault)
deriving DecidableEq, Repr

def YamlFault.message? : YamlFault → Option String
  | .inText => none
  | .manyDocuments => some "deserializing from YAML containing more than one document is not supported"
  | .repetition => some "repetition limit exceeded"
  | .merge f => some f.message

namespace Yaml

def localTag? (tag : Option String) : Option String :=
  match tag.map String.toList with
  | some ['!'] => some "!"
  | some ('!' :: rest) => some (String.ofList rest)
  | _ => none

def coreTag (name : String) : String := "tag:yaml.org,2002:" ++ name

def ofPlain (text : String) : Except YamlFault Yaml :=
  match Plain.ofText text.toList with
  | .null => .ok .null
  | .bool b => .ok (.bool b)
  | .number n => .ok (.number n)
  | .tooLarge => .error .inText
  | .string => .ok (.string text)

/-- The value of a scalar. The core tags ask for a kind of value, and a text that is not of this
kind is refused. Any other tag makes a string. Inside a tagged value the tag does not count. -/
def ofScalar (tag : Option String) (text : String) (plain within : Bool) : Except YamlFault Yaml :=
  match tag, within with
  | some t, false =>
    let cs := text.toList
    if t = coreTag "bool" then
      match Plain.bool? cs with
      | some b => .ok (.bool b)
      | none => .error .inText
    else if t = coreTag "int" then
      match (Plain.int? cs).bind Integer.ofInt? with
      | some i => .ok (.number (.int i))
      | none => .error .inText
    else if t = coreTag "float" then
      match Plain.float? cs with
      | some n => .ok (.number n)
      | none => .error .inText
    else if t = coreTag "null" then if Plain.isNull cs then .ok .null else .error .inText
    else .ok (.string text)
  | _, _ => if plain then ofPlain text else .ok (.string text)

structure Head where
  pos : Nat
  jumps : Nat

abbrev Read (α : Type) := Head → Except YamlFault (α × Head)

def readItems (tape : Tape) (read : Read Yaml) : Nat → List Yaml → Read (List Yaml)
  | 0, _, _ => .error .inText
  | fuel + 1, done, h =>
    match tape.items[h.pos]? with
    | none => .error .inText
    | some .sequenceEnd => .ok (done.reverse, { h with pos := h.pos + 1 })
    | some _ => do
      let (v, h) ← read h
      readItems tape read fuel (v :: done) h

def readEntries (tape : Tape) (key value : Read Yaml) :
    Nat → List (Yaml × Yaml) → Read (List (Yaml × Yaml))
  | 0, _, _ => .error .inText
  | fuel + 1, done, h =>
    match tape.items[h.pos]? with
    | none => .error .inText
    | some .mappingEnd => .ok (done.reverse, { h with pos := h.pos + 1 })
    | some _ => do
      let (k, h) ← key h
      if hasKey k done then .error .inText
      else
        let (v, h) ← value h
        readEntries tape key value fuel ((k, v) :: done) h

def follow (tape : Tape) (id : Nat) (h : Head) : Except YamlFault Head :=
  if tape.items.size * 100 < h.jumps + 1 then .error .repetition
  else
    match tape.places.lookup id with
    | some place => .ok ⟨place, h.jumps + 1⟩
    | none => .error .inText

def readItem (tape : Tape) (readBelow : Bool → Option (Read Yaml)) (within : Bool) (item : TapeItem) :
    Read Yaml := fun h =>
  let wrap (tag : Option String) (v : Yaml) : Yaml :=
    match localTag? tag, within with
    | some t, false => .tagged t v
    | _, _ => v
  let inside (tag : Option String) : Bool := within || (localTag? tag).isSome
  let fuel := tape.items.size + 1
  match item with
  | .alias _ => .error .inText
  | .scalar tag text plain => do .ok (wrap tag (← ofScalar tag text plain (inside tag)), h)
  | .sequenceStart tag =>
    match readBelow false with
    | none => .error .inText
    | some read => do
      let (items, h) ← readItems tape read fuel [] h
      .ok (wrap tag (.seq items), h)
  | .mappingStart tag =>
    match readBelow (inside tag), readBelow false with
    | some key, some value => do
      let (es, h) ← readEntries tape key value fuel [] h
      .ok (wrap tag (.map es), h)
    | _, _ => .error .inText
  | .sequenceEnd => .error .inText
  | .mappingEnd => .error .inText

/-- A value with containers at most `depth` deep. `within` a tagged value its own tag does not
count; that holds for the keys of a tagged mapping too. -/
def readValue (tape : Tape) : Nat → Bool → Read Yaml
  | depth, within, h =>
    let below (within : Bool) : Option (Read Yaml) :=
      match depth with
      | 0 => none
      | depth + 1 => some (readValue tape depth within)
    match tape.items[h.pos]? with
    | none => .error .inText
    | some (.alias id) => do
      let target ← follow tape id h
      match tape.items[target.pos]? with
      | none => .error .inText
      | some item =>
        let (v, after) ← readItem tape below false item { target with pos := target.pos + 1 }
        .ok (v, ⟨h.pos + 1, after.jumps⟩)
    | some item => readItem tape below within item { h with pos := h.pos + 1 }

def maxDepth : Nat := 128

def ofTape (tape : Tape) : Except YamlFault Yaml := do
  let v ← if tape.items.isEmpty && tape.ending == .complete then .ok .null
    else do
      let (v, _) ← readValue tape maxDepth false ⟨0, 0⟩
      .ok v
  match tape.ending with
  | .complete => .ok v
  | .more => .error .manyDocuments
  | .broken => .error .inText

def parse (text : String) : Except YamlFault Yaml := do
  let v ← ofTape (Tape.ofEvents (events text.toList))
  match v.merge with
  | .ok v => .ok v
  | .error f => .error (.merge f)

end Yaml

end ConfigShape
