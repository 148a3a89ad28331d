import ConfigShape.Profile.Basic
import ConfigShape.Json.Reader

namespace ConfigShape

namespace Json

/-- Something other than what is expected. A scalar is read before it is refused, a container is
not. -/
def mismatch {α : Type} (expected : String) (s : List UInt8) : Except Stop α :=
  match skipBlank s with
  | [] => stop .endInValue []
  | b :: s =>
    if b = 110 then do
      let s ← word "ull".toUTF8.data.toList s
      stop (.mismatch .null expected) s
    else if b = 116 then do
      let s ← word "rue".toUTF8.data.toList s
      stop (.mismatch (.bool true) expected) s
    else if b = 102 then do
      let s ← word "alse".toUTF8.data.toList s
      stop (.mismatch (.bool false) expected) s
    else if b = 45 || isDigit b then do
      let (n, s) ← numeral (b :: s)
      let isFloat := match n with
        | .float _ => true
        | .int _ => false
      stop (.mismatch (.number (n.text Number.jsonLayout) isFloat) expected) s
    else if b = 34 then do
      let (text, s) ← quoted s
      stop (.mismatch (.string text) expected) s
    else if b = 91 then stop (.mismatch .sequence expected) (b :: s)
    else if b = 123 then stop (.mismatch .map expected) (b :: s)
    else stop .expectedValue s

def expectString (expected : String) : Reader String := fun s =>
  match skipBlank s with
  | 34 :: s => quoted s
  | s => mismatch expected s

def optional {α : Type} (read : Reader α) : Reader (Option α) := fun s =>
  match skipBlank s with
  | 110 :: s => do .ok (none, ← word "ull".toUTF8.data.toList s)
  | s => do
    let (v, s) ← read s
    .ok (some v, s)

def listOf {α : Type} (depth : Nat) (read : Nat → Reader α) : Reader (List α) := fun s =>
  match skipBlank s, depth with
  | 91 :: s, 0 => stop .tooDeep s
  | 91 :: s, depth + 1 => list (read depth) s
  | s, _ => mismatch "a sequence" s

def objectOf {α : Type} (depth : Nat) (read : Nat → Reader α) : Reader (Entries α) := fun s =>
  match skipBlank s, depth with
  | 123 :: s, 0 => stop .tooDeep s
  | 123 :: s, depth + 1 => objectMembers (objectMember (read depth)) (s.length + 1) true [] s
  | s, _ => mismatch "a map" s

/-- A fault about a key is placed where the reader stands once it has closed the object, as far
as it can: after blanks and after a brace that follows. -/
def keyFault {α : Type} (fault : Fault) (path : List Step) (s : List UInt8) : Except Stop α :=
  match skipBlank s with
  | 125 :: s => .error ⟨fault, s.length, path⟩
  | s => .error ⟨fault, s.length, path⟩

def endOfFields (s : List UInt8) : Except Stop (List UInt8) :=
  match skipBlank s with
  | [] => stopAhead .endInList []
  | 93 :: s => .ok s
  | 44 :: s =>
    match skipBlank s with
    | 93 :: s => stop .trailingComma s
    | s => stopAhead .trailingCharacters s
  | _ :: s => stop .trailingCharacters s

def listedFields {σ : Type} : List (σ → Reader σ) → Nat → σ → Reader σ
  | [], _, acc, s => do .ok (acc, ← endOfFields s)
  | field :: fields, i, acc, s => do
    let (more, s) ← nextItem (i == 0) s
    if more then
      let (acc, s) ← under (.item i) (field acc s)
      listedFields fields (i + 1) acc s
    else .ok (acc, s)

def namedField {σ : Type} (fields : List (String × (σ → Reader σ))) (key : String)
    (state : List String × σ) : Reader (List String × σ) := fun s =>
  match fields.lookup key with
  | none => keyFault (.unknownField key (fields.map Prod.fst)) [.name key] s
  | some field =>
    if state.1.contains key then keyFault (.duplicateField key) [] s
    else do
      let (acc, s) ← memberValue (field state.2) key s
      .ok ((key :: state.1, acc), s)

def record {σ : Type} (expected : String) (default : σ)
    (fields : Nat → List (String × (σ → Reader σ))) (depth : Nat) : Reader σ := fun s =>
  match skipBlank s, depth with
  | 91 :: s, 0 => stop .tooDeep s
  | 91 :: s, depth + 1 => listedFields ((fields depth).map Prod.snd) 0 default s
  | 123 :: s, 0 => stop .tooDeep s
  | 123 :: s, depth + 1 => do
    let (state, s) ← objectMembers (namedField (fields depth)) (s.length + 1) true ([], default) s
    .ok (state.2, s)
  | s, _ => mismatch expected s

end Json

open Json

namespace ShapeRule

def named : List (String × ShapeRule) :=
  [("keep", .keep), ("sequence", .sequence), ("map", .map), ("map_ex", .prefixMap),
    ("string", .string), ("enum", .enumeration)]

def readName : Reader ShapeRule := fun s => do
  let (name, s) ← expectString "variant identifier" s
  match named.lookup name with
  | some shape => .ok (shape, s)
  | none => stop (.unknownVariant name (named.map Prod.fst)) s

def readUnit : Reader Unit := fun s =>
  match skipBlank s with
  | 110 :: s => do .ok ((), ← word "ull".toUTF8.data.toList s)
  | s => mismatch "unit" s

/-- The name of a shape, alone or as the only key of an object whose value is null. -/
def read (depth : Nat) : Reader ShapeRule := fun s =>
  match skipBlank s, depth with
  | [], _ => stop .endInValue []
  | 34 :: s, _ => readName (34 :: s)
  | 123 :: s, 0 => stop .tooDeep s
  | 123 :: s, _ + 1 => do
    let (shape, rest) ← readName s
    let rest ← colon rest
    let name := (named.find? (fun e => e.2 == shape)).map Prod.fst
    let (_, rest) ← under (.name (name.getD "")) (readUnit rest)
    match skipBlank rest with
    | 125 :: rest => .ok (shape, rest)
    | [] => stop .endInObject []
    | rest => stop .expectedValue rest
  | _ :: s, _ => stop .expectedValue s

end ShapeRule

namespace SectionRule

def fields (depth : Nat) : List (String × (SectionRule → Reader SectionRule)) :=
  [("shape", fun rule s => do
      let (shape, s) ← ShapeRule.read depth s
      .ok ({ rule with shape }, s)),
    ("prefix_key", fun rule s => do
      let (prefixKey, s) ← optional (expectString "a string") s
      .ok ({ rule with prefixKey }, s)),
    ("default_keys", fun rule s => do
      let (defaultKeys, s) ← listOf depth (fun _ => expectString "a string") s
      .ok ({ rule with defaultKeys }, s)),
    ("aliases", fun rule s => do
      let (aliases, s) ← objectOf depth (fun _ => expectString "a string") s
      .ok ({ rule with aliases }, s)),
    ("allowed", fun rule s => do
      let (values, s) ← optional (listOf depth value) s
      .ok ({ rule with allowed := values.map Node.ofJsonItems }, s))]

def read (depth : Nat) : Reader SectionRule := record "struct SectionRule" SectionRule.plain fields depth

def parse (text : String) : Except Json.Error SectionRule := do
  let (rule, _) ← Reader.run (fun s => do
    let (rule, s) ← read maxDepth s
    atEnd s
    .ok (rule, s)) (Utf8.encode text)
  .ok rule

end SectionRule

inductive ProfileFault where
  | text (e : Json.Error)
  | flaw (f : Profile.Flaw)

namespace ProfileFault

def path : ProfileFault → String
  | .text e => pathText e.path
  | .flaw f => f.path

def detail : ProfileFault → String
  | .text e => e.message
  | .flaw _ => "enum sections need an `allowed` list"

def message (f : ProfileFault) : String :=
  "invalid profile at JSON path " ++ f.path ++ " → " ++ f.detail

end ProfileFault

namespace Profile

def fields (depth : Nat) : List (String × (Profile → Reader Profile)) :=
  [("root", fun p s => do
      let (root, s) ← SectionRule.read depth s
      .ok ({ p with root }, s)),
    ("sections", fun p s => do
      let (sections, s) ← objectOf depth SectionRule.read s
      .ok ({ p with sections }, s))]

def read (depth : Nat) : Reader Profile := record "struct Profile" Profile.plain fields depth

/-- The profile at the start of a text. What follows it does not matter. -/
def ofBytes (bytes : List UInt8) : Except ProfileFault Profile :=
  match Reader.run (read maxDepth) bytes with
  | .error e => .error (.text e)
  | .ok (p, _) =>
    match (check p.rules).2 with
    | some flaw => .error (.flaw flaw)
    | none => .ok p

def ofBytesNotices (bytes : List UInt8) : List Notice :=
  match Reader.run (read maxDepth) bytes with
  | .error _ => []
  | .ok (p, _) => (check p.rules).1

def parse (text : String) : Except ProfileFault Profile := ofBytes (Utf8.encode text)

end Profile

end ConfigShape
