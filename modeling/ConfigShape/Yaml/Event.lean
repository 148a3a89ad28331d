import ConfigShape.Yaml.Token

namespace ConfigShape.Yaml

inductive Event where
  | alias (name : String)
  | scalar (anchor tag : Option String) (text : String) (plain : Bool)
  | sequenceStart (anchor tag : Option String)
  | sequenceEnd
  | mappingStart (anchor tag : Option String)
  | mappingEnd
  | documentEnd
  | streamEnd
deriving DecidableEq, Repr

inductive Expect where
  | firstDocument
  | document
  | documentContent
  | documentEnd
  | blockNode
  | blockSequenceFirst
  | blockSequenceEntry
  | indentlessEntry
  | blockMappingFirst
  | blockMappingKey
  | blockMappingValue
  | flowSequenceFirst
  | flowSequenceEntry
  | pairKey
  | pairValue
  | pairEnd
  | flowMappingFirst
  | flowMappingKey
  | flowMappingValue
  | flowMappingNoValue
  | nothing
deriving DecidableEq, Repr

structure Reading where
  tokens : List Token
  expect : Expect
  /-- What is expected after the collections that are open, the innermost first. -/
  pending : List Expect
  handles : List (String × String)

namespace Reading

abbrev Step := Option (Option Event × Reading)

def pop (r : Reading) : Reading :=
  match r.pending with
  | e :: pending => { r with expect := e, pending }
  | [] => { r with expect := .nothing }

def push (e : Expect) (r : Reading) : Reading := { r with pending := e :: r.pending }

def skip (r : Reading) : Reading := { r with tokens := r.tokens.drop 1 }

def await (e : Expect) (r : Reading) : Reading := { r with expect := e }

def absent : Event := .scalar none none "" true

def leaveOut (next : Expect) (r : Reading) : Step := some (some absent, r.await next)

def resolveTag (handles : List (String × String)) (handle suffix : String) : Option String :=
  if handle.isEmpty then some suffix else (handles.lookup handle).map (· ++ suffix)

def properties (r : Reading) : Option (Option String × Option String × Reading) :=
  match r.tokens with
  | .anchor a :: .tag h s :: _ => do
    some (some a, some (← resolveTag r.handles h s), r.skip.skip)
  | .tag h s :: .anchor a :: _ => do
    some (some a, some (← resolveTag r.handles h s), r.skip.skip)
  | .anchor a :: _ => some (some a, none, r.skip)
  | .tag h s :: _ => do some (none, some (← resolveTag r.handles h s), r.skip)
  | _ => some (none, none, r)

/-- A node. Block collections are allowed only in block style, and a sequence that is not indented
only as a value in a block mapping. A lone exclamation mark is no tag of a scalar. -/
def node (block indentless : Bool) (r : Reading) : Step :=
  match r.tokens with
  | .alias name :: _ => some (some (.alias name), r.skip.pop)
  | _ => do
    let (anchor, tag, r) ← r.properties
    match r.tokens with
    | [] => none
    | t :: _ =>
      if indentless && t == .blockEntry then
        some (some (.sequenceStart anchor tag), r.await .indentlessEntry)
      else
        match t with
        | .scalar text plain =>
          let tag := if tag = some "!" then none else tag
          some (some (.scalar anchor tag text plain), r.skip.pop)
        | .flowSequenceStart => some (some (.sequenceStart anchor tag), r.await .flowSequenceFirst)
        | .flowMappingStart => some (some (.mappingStart anchor tag), r.await .flowMappingFirst)
        | .blockSequenceStart =>
          if block then some (some (.sequenceStart anchor tag), r.await .blockSequenceFirst)
          else otherwise anchor tag r
        | .blockMappingStart =>
          if block then some (some (.mappingStart anchor tag), r.await .blockMappingFirst)
          else otherwise anchor tag r
        | _ => otherwise anchor tag r
where
  otherwise (anchor tag : Option String) (r : Reading) : Step :=
    if anchor.isSome || tag.isSome then some (some (.scalar anchor tag "" true), r.pop) else none

/-- The directives before a document: at most one version, 1.1 or 1.2, and handles that differ. -/
def directives : Nat → Bool → Reading → Option Reading
  | 0, _, _ => none
  | fuel + 1, versioned, r =>
    match r.tokens with
    | .version major minor :: _ =>
      if versioned || major != 1 || (minor != 1 && minor != 2) then none
      else directives fuel true r.skip
    | .tagDirective h u :: _ =>
      if (r.handles.lookup h).isSome then none
      else directives fuel versioned { r.skip with handles := r.handles ++ [(h, u)] }
    | _ =>
      some { r with handles := r.handles ++ [("!", "!"), ("!!", "tag:yaml.org,2002:")] }

def markedDocument (r : Reading) : Step :=
  match r.tokens with
  | .streamEnd :: _ => some (some .streamEnd, r.skip.await .nothing)
  | _ => do
    let r ← directives (r.tokens.length + 1) false r
    match r.tokens with
    | .documentStart :: _ => some (none, (r.skip.push .documentEnd).await .documentContent)
    | _ => none

def firstDocument (r : Reading) : Step :=
  match r.tokens with
  | [] => none
  | t :: _ =>
    match t with
    | .version _ _ | .tagDirective _ _ | .documentStart | .streamEnd => r.markedDocument
    | _ => do
      let r ← directives 1 false r
      some (none, (r.push .documentEnd).await .blockNode)

def documentContent (r : Reading) : Step :=
  match r.tokens with
  | [] => none
  | t :: _ =>
    match t with
    | .version _ _ | .tagDirective _ _ | .documentStart | .documentEnd | .streamEnd =>
      some (some absent, r.pop)
    | _ => r.node true false

def documentEnd (r : Reading) : Step :=
  match r.tokens with
  | [] => none
  | t :: _ =>
    let r := if t == .documentEnd then r.skip else r
    some (some .documentEnd, { r with expect := .document, handles := [] })

def blockSequenceEntry (r : Reading) : Step :=
  match r.tokens with
  | .blockEntry :: .blockEntry :: _ | .blockEntry :: .blockEnd :: _ =>
    r.skip.leaveOut .blockSequenceEntry
  | .blockEntry :: _ => (r.skip.push .blockSequenceEntry).node true false
  | .blockEnd :: _ => some (some .sequenceEnd, r.skip.pop)
  | _ => none

def indentlessEntry (r : Reading) : Step :=
  match r.tokens with
  | .blockEntry :: t :: _ =>
    if t == .blockEntry || t == .key || t == .value || t == .blockEnd then
      r.skip.leaveOut .indentlessEntry
    else (r.skip.push .indentlessEntry).node true false
  | [.blockEntry] => none
  | [] => none
  | _ => some (some .sequenceEnd, r.pop)

def blockPart (next : Expect) (r : Reading) : Step :=
  match r.tokens with
  | [] => none
  | t :: _ =>
    if t == .key || t == .value || t == .blockEnd then r.leaveOut next
    else (r.push next).node true true

def blockMappingKey (r : Reading) : Step :=
  match r.tokens with
  | .key :: _ => r.skip.blockPart .blockMappingValue
  | .blockEnd :: _ => some (some .mappingEnd, r.skip.pop)
  | _ => none

def blockMappingValue (r : Reading) : Step :=
  match r.tokens with
  | .value :: _ => r.skip.blockPart .blockMappingKey
  | [] => none
  | _ => r.leaveOut .blockMappingKey

def flowSequenceItem (r : Reading) : Step :=
  match r.tokens with
  | .key :: _ => some (some (.mappingStart none none), r.skip.await .pairKey)
  | .flowSequenceEnd :: _ => some (some .sequenceEnd, r.skip.pop)
  | _ => (r.push .flowSequenceEntry).node false false

def flowSequenceEntry (r : Reading) : Step :=
  match r.tokens with
  | .flowSequenceEnd :: _ => some (some .sequenceEnd, r.skip.pop)
  | .flowEntry :: _ => r.skip.flowSequenceItem
  | _ => none

def pairKey (r : Reading) : Step :=
  match r.tokens with
  | [] => none
  | t :: _ =>
    if t == .value || t == .flowEntry || t == .flowSequenceEnd then r.skip.leaveOut .pairValue
    else (r.push .pairValue).node false false

def pairValue (r : Reading) : Step :=
  match r.tokens with
  | .value :: .flowEntry :: _ | .value :: .flowSequenceEnd :: _ => r.skip.leaveOut .pairEnd
  | .value :: _ => (r.skip.push .pairEnd).node false false
  | [] => none
  | _ => r.leaveOut .pairEnd

def flowMappingItem (r : Reading) : Step :=
  match r.tokens with
  | .key :: t :: _ =>
    if t == .value || t == .flowEntry || t == .flowMappingEnd then r.skip.leaveOut .flowMappingValue
    else (r.skip.push .flowMappingValue).node false false
  | .flowMappingEnd :: _ => some (some .mappingEnd, r.skip.pop)
  | _ => (r.push .flowMappingNoValue).node false false

def flowMappingKey (r : Reading) : Step :=
  match r.tokens with
  | .flowMappingEnd :: _ => some (some .mappingEnd, r.skip.pop)
  | .flowEntry :: _ => r.skip.flowMappingItem
  | _ => none

def flowMappingValue (r : Reading) : Step :=
  match r.tokens with
  | .value :: .flowEntry :: _ | .value :: .flowMappingEnd :: _ => r.skip.leaveOut .flowMappingKey
  | .value :: _ => (r.skip.push .flowMappingKey).node false false
  | [] => none
  | _ => r.leaveOut .flowMappingKey

def step (r : Reading) : Step :=
  match r.expect with
  | .firstDocument => r.firstDocument
  | .document => markedDocument { r with tokens := r.tokens.dropWhile (· == Token.documentEnd) }
  | .documentContent => r.documentContent
  | .documentEnd => r.documentEnd
  | .blockNode => r.node true false
  | .blockSequenceFirst => r.skip.blockSequenceEntry
  | .blockSequenceEntry => r.blockSequenceEntry
  | .indentlessEntry => r.indentlessEntry
  | .blockMappingFirst => r.skip.blockMappingKey
  | .blockMappingKey => r.blockMappingKey
  | .blockMappingValue => r.blockMappingValue
  | .flowSequenceFirst => r.skip.flowSequenceItem
  | .flowSequenceEntry => r.flowSequenceEntry
  | .pairKey => r.pairKey
  | .pairValue => r.pairValue
  | .pairEnd => some (some .mappingEnd, r.await .flowSequenceEntry)
  | .flowMappingFirst => r.skip.flowMappingItem
  | .flowMappingKey => r.flowMappingKey
  | .flowMappingValue => r.flowMappingValue
  | .flowMappingNoValue => r.leaveOut .flowMappingKey
  | .nothing => none

def run : Nat → Reading → List Event
  | 0, _ => []
  | fuel + 1, r =>
    match r.step with
    | some (some e, r) => e :: run fuel r
    | some (none, r) => run fuel r
    | none => []

end Reading

/-- The events of a text. They end with the end of the stream unless the text is malformed. -/
def events (text : List Char) : List Event :=
  let ts := (tokens text).1.toList
  Reading.run (8 * ts.length + 8) ⟨ts, .firstDocument, [], []⟩

end ConfigShape.Yaml
