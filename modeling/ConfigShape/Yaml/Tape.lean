import ConfigShape.Yaml.Event

namespace ConfigShape.Yaml

inductive TapeItem where
  | alias (id : Nat)
  | scalar (tag : Option String) (text : String) (plain : Bool)
  | sequenceStart (tag : Option String)
  | sequenceEnd
  | mappingStart (tag : Option String)
  | mappingEnd
deriving DecidableEq, Repr

inductive TapeEnd where
  | complete
  | more
  | broken
deriving DecidableEq, Repr

structure Tape where
  items : Array TapeItem
  places : List (Nat × Nat)
  ending : TapeEnd

structure TapeWriter where
  items : Array TapeItem
  names : List (String × Nat)
  places : List (Nat × Nat)

namespace TapeWriter

/-- Gives an anchor the number of names known so far. A name that is given again takes a new
number, but is counted once, so that the next new name gets the same number and its place. -/
def anchor (name : Option String) (w : TapeWriter) : TapeWriter :=
  match name with
  | none => w
  | some name =>
    let id := w.names.length
    let names := if (w.names.lookup name).isSome then
        w.names.map (fun e => if e.1 == name then (name, id) else e)
      else w.names ++ [(name, id)]
    { w with names, places := (id, w.items.size) :: w.places }

def push (item : TapeItem) (w : TapeWriter) : TapeWriter := { w with items := w.items.push item }

def finish (ending : TapeEnd) (w : TapeWriter) : Tape := ⟨w.items, w.places, ending⟩

def write (w : TapeWriter) : List Event → Tape
  | [] => w.finish .broken
  | e :: rest =>
    match e with
    | .documentEnd =>
      match rest with
      | .streamEnd :: _ => w.finish .complete
      | _ => w.finish .more
    | .streamEnd => w.finish .complete
    | .alias name =>
      match w.names.lookup name with
      | some id => (w.push (.alias id)).write rest
      | none => w.finish .broken
    | .scalar name tag text plain => ((w.anchor name).push (.scalar tag text plain)).write rest
    | .sequenceStart name tag => ((w.anchor name).push (.sequenceStart tag)).write rest
    | .mappingStart name tag => ((w.anchor name).push (.mappingStart tag)).write rest
    | .sequenceEnd => (w.push .sequenceEnd).write rest
    | .mappingEnd => (w.push .mappingEnd).write rest

end TapeWriter

def Tape.ofEvents (es : List Event) : Tape := (TapeWriter.mk #[] [] []).write es

end ConfigShape.Yaml
