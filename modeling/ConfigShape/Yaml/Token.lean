import ConfigShape.Yaml.Scalar
import ConfigShape.Text.Utf8

namespace ConfigShape.Yaml

inductive Token where
  | version (major minor : Nat)
  | tagDirective (handle uri : String)
  | documentStart
  | documentEnd
  | streamEnd
  | blockSequenceStart
  | blockMappingStart
  | blockEnd
  | flowSequenceStart
  | flowSequenceEnd
  | flowMappingStart
  | flowMappingEnd
  | blockEntry
  | flowEntry
  | key
  | value
  | alias (name : String)
  | anchor (name : String)
  | tag (handle suffix : String)
  | scalar (text : String) (plain : Bool)
deriving DecidableEq, Repr

/-- A place where a key may have begun. Only the colon after it tells, and then the key token is put
there. If it is required, it must turn out to be one. -/
structure KeyPlace where
  required : Bool
  tokenIndex : Nat
  cursor : Cursor

structure Lexer where
  cursor : Cursor
  indent : Int
  outerIndents : List Int
  keyAllowed : Bool
  /-- For the block level and each flow collection, the place of a possible key. -/
  keyPlaces : List (Option KeyPlace)
  tokens : Array Token

namespace Lexer

def start (text : List Char) : Lexer := ⟨Cursor.start text, -1, [], true, [none], #[]⟩

def inFlow (x : Lexer) : Bool := x.keyPlaces.length > 1

def emit (t : Token) (x : Lexer) : Lexer := { x with tokens := x.tokens.push t }

def allowKey (b : Bool) (x : Lexer) : Lexer := { x with keyAllowed := b }

def advance (n : Nat) (x : Lexer) : Lexer := { x with cursor := x.cursor.skipMany n }

def openBlock (column : Nat) (place : Nat) (t : Token) (x : Lexer) : Lexer :=
  if !x.inFlow && x.indent < column then
    { x with
      indent := column
      outerIndents := x.indent :: x.outerIndents
      tokens := x.tokens.insertIdxIfInBounds place t }
  else x

def closeBlocks (column : Int) : List Int → Lexer → Lexer
  | outer :: outers, x =>
    if column < x.indent then
      closeBlocks column outers ({ x with indent := outer, outerIndents := outers }.emit .blockEnd)
    else x
  | [], x => x

def unroll (column : Int) (x : Lexer) : Lexer :=
  if x.inFlow then x else closeBlocks column x.outerIndents x

def forgetKey (x : Lexer) : Option Lexer :=
  match x.keyPlaces with
  | some place :: outer => if place.required then none else some { x with keyPlaces := none :: outer }
  | _ => some x

def rememberKey (x : Lexer) : Option Lexer :=
  if x.keyAllowed then do
    let x ← x.forgetKey
    let required := !x.inFlow && x.indent == x.cursor.column
    some { x with keyPlaces := some ⟨required, x.tokens.size, x.cursor⟩ :: x.keyPlaces.drop 1 }
  else some x

def dropStale (cursor : Cursor) : List (Option KeyPlace) → Option (List (Option KeyPlace))
  | [] => some []
  | none :: outer => do some (none :: (← dropStale cursor outer))
  | some place :: outer =>
    if place.cursor.line < cursor.line || place.cursor.index + 1024 < cursor.index then
      if place.required then none else do some (none :: (← dropStale cursor outer))
    else do some (some place :: (← dropStale cursor outer))

/-- Skips blanks, comments and empty lines. Tabs are blanks only where no key can begin. -/
def skipBlanks : Nat → Lexer → Lexer
  | 0, x => x
  | fuel + 1, x =>
    let c := match x.cursor.rest with
      | '\ufeff' :: _ => if x.cursor.index = 0 then x.cursor.skip else x.cursor
      | _ => x.cursor
    let c := c.skipWhile (fun ch => ch == ' ' || ((x.inFlow || !x.keyAllowed) && ch == '\t'))
    let c := match c.rest with
      | '#' :: _ => c.skipWhile (fun _ => true)
      | _ => c
    match c.lineBreak? with
    | some (_, c) => skipBlanks fuel { x with cursor := c, keyAllowed := !x.inFlow || x.keyAllowed }
    | none => { x with cursor := c }

def versionNumber (c : Cursor) : Option (Nat × Cursor) :=
  let (digits, c) := c.takeWhile (fun ch => '0' ≤ ch && ch ≤ '9')
  if digits.isEmpty || digits.length > 9 then none
  else some (digits.foldl (fun n ch => n * 10 + (ch.toNat - 48)) 0, c)

def isUriChar (c : Char) : Bool :=
  isWordChar c || ";/?:@&=+$.!~*'()".toList.contains c

def escapedOctets : Nat → Cursor → Option (List UInt8 × Cursor)
  | 0, c => some ([], c)
  | n + 1, c =>
    match c.rest with
    | '%' :: a :: b :: _ => do
      let octet := (← hexValue? a) * 16 + (← hexValue? b)
      let (more, c) ← escapedOctets n (c.skipMany 3)
      if more.all (fun m => 0x80 ≤ m && m < 0xC0) then some (UInt8.ofNat octet :: more, c) else none
    | _ => none

def octetCount? (first : Nat) : Option Nat :=
  if first < 0x80 then some 1
  else if 0xC0 ≤ first && first < 0xE0 then some 2
  else if 0xE0 ≤ first && first < 0xF0 then some 3
  else if 0xF0 ≤ first && first < 0xF8 then some 4
  else none

def uriBytes (verbatim : Bool) : Nat → Cursor → Option (List UInt8 × Cursor)
  | 0, c => some ([], c)
  | fuel + 1, c =>
    match c.rest with
    | '%' :: a :: b :: _ => do
      let first := (← hexValue? a) * 16 + (← hexValue? b)
      let (octets, c) ← escapedOctets (← octetCount? first) c
      let (more, c) ← uriBytes verbatim fuel c
      some (octets ++ more, c)
    | '%' :: _ => none
    | ch :: _ =>
      if isUriChar ch || (verbatim && (ch = ',' || ch = '[' || ch = ']')) then do
        let (more, c) ← uriBytes verbatim fuel c.skip
        some (String.utf8EncodeChar ch ++ more, c)
      else some ([], c)
    | [] => some ([], c)

def uri (verbatim : Bool) (c : Cursor) : Option (String × Cursor) := do
  let (bytes, c) ← uriBytes verbatim (c.left + 1) c
  some ((Utf8.decode? bytes).getD "\ufffd", c)

def handle (c : Cursor) : Option (String × Cursor) :=
  match c.rest with
  | '!' :: _ =>
    let (name, c) := c.skip.takeWhile isWordChar
    match c.rest with
    | '!' :: _ => some (String.ofList ('!' :: (name ++ ['!'])), c.skip)
    | _ => some (String.ofList ('!' :: name), c)
  | _ => none

/-- A tag is `!<uri>`, a handle and a suffix, or a mark and a suffix. -/
def tag (inFlow : Bool) (c : Cursor) : Option (Token × Cursor) := do
  let (t, c) ← match c.rest with
    | '!' :: '<' :: _ => do
      let (suffix, c) ← uri true (c.skipMany 2)
      match c.rest with
      | '>' :: _ => if suffix.isEmpty then none else some (Token.tag "" suffix, c.skip)
      | _ => none
    | _ => do
      let (h, c) ← handle c
      let (suffix, c) ← uri false c
      if h.length > 1 && h.endsWith "!" then
        if suffix.isEmpty then none else some (Token.tag h suffix, c)
      else
        let suffix := String.ofList (h.toList.drop 1) ++ suffix
        if suffix.isEmpty then some (Token.tag "" "!", c) else some (Token.tag "!" suffix, c)
  if endsWord c.rest || (inFlow && (match c.rest with
      | ',' :: _ => true
      | _ => false)) then some (t, c)
  else none

def anchorName (c : Cursor) : Option (String × Cursor) :=
  let (name, c) := c.takeWhile isWordChar
  let ended := endsWord c.rest || (match c.rest with
    | ch :: _ => "?:,]\x7d%@".toList.contains ch || ch.toNat == 96
    | [] => true)
  if name.isEmpty || !ended then none else some (String.ofList name, c)

def directive (c : Cursor) : Option (Token × Cursor) := do
  let (name, c) := c.skip.takeWhile isWordChar
  if !endsWord c.rest then none
  else
    let c := c.skipWhile isBlank
    let (t, c) ← match String.ofList name with
      | "YAML" => do
        let (major, c) ← versionNumber c
        match c.rest with
        | '.' :: _ => do
          let (minor, c) ← versionNumber c.skip
          some (Token.version major minor, c)
        | _ => none
      | "TAG" => do
        let (h, c) ← handle c
        if h != "!" && !(h.length > 1 && h.endsWith "!") then none
        else
          match c.rest with
          | ch :: _ =>
            if isBlank ch then do
              let (u, c) ← uri true (c.skipWhile isBlank)
              if u.isEmpty || !endsWord c.rest then none else some (Token.tagDirective h u, c)
            else none
          | [] => none
      | _ => none
    let c ← c.skipToLineEnd?
    some (t, c)

def indicator (t : Token) (length : Nat) (x : Lexer) : Lexer := (x.advance length).emit t

def toTopLevel (x : Lexer) : Option Lexer := do
  let x ← (x.unroll (-1)).forgetKey
  some (x.allowKey false)

def flowStart (t : Token) (x : Lexer) : Option Lexer := do
  let x ← x.rememberKey
  some (({ x with keyPlaces := none :: x.keyPlaces }.allowKey true).indicator t 1)

def flowEnd (t : Token) (x : Lexer) : Option Lexer := do
  let x ← x.forgetKey
  let x := if x.inFlow then { x with keyPlaces := x.keyPlaces.drop 1 } else x
  some ((x.allowKey false).indicator t 1)

def flowEntry (x : Lexer) : Option Lexer := do
  let x ← x.forgetKey
  some ((x.allowKey true).indicator .flowEntry 1)

def blockEntry (opening t : Token) (x : Lexer) : Option Lexer := do
  if !x.inFlow && !x.keyAllowed then none
  else
    let x := x.openBlock x.cursor.column x.tokens.size opening
    let x ← x.forgetKey
    some ((x.allowKey (t == .blockEntry || !x.inFlow)).indicator t 1)

def value (x : Lexer) : Option Lexer :=
  match x.keyPlaces with
  | some place :: outer =>
    let x := { x with
      tokens := x.tokens.insertIdxIfInBounds place.tokenIndex .key
      keyPlaces := none :: outer }
    let x := x.openBlock place.cursor.column place.tokenIndex .blockMappingStart
    some ((x.allowKey false).indicator .value 1)
  | _ =>
    if x.inFlow then some ((x.allowKey false).indicator .value 1)
    else if x.keyAllowed then
      let x := x.openBlock x.cursor.column x.tokens.size .blockMappingStart
      some ((x.allowKey true).indicator .value 1)
    else none

def content (scan : Cursor → Option (Token × Cursor)) (x : Lexer) : Option Lexer := do
  let x ← x.rememberKey
  let (t, c) ← scan x.cursor
  some ({ x with cursor := c, keyAllowed := false }.emit t)

def plain (x : Lexer) : Option Lexer := do
  let x ← x.rememberKey
  let (text, broken, c) ← plainScalar x.inFlow (x.indent + 1) x.cursor
  some ({ x with cursor := c, keyAllowed := broken }.emit (.scalar text true))

def block (literal : Bool) (x : Lexer) : Option Lexer := do
  let x ← x.forgetKey
  let (text, c) ← blockScalar literal x.indent x.cursor
  some ({ x with cursor := c, keyAllowed := true }.emit (.scalar text false))

def scanQuoted (single : Bool) (c : Cursor) : Option (Token × Cursor) := do
  let (text, c) ← quotedScalar single c
  some (.scalar text false, c)

def scanAnchor (make : String → Token) (c : Cursor) : Option (Token × Cursor) := do
  let (name, c) ← anchorName c.skip
  some (make name, c)

def isMark (c : Char) : Bool := "-?:,[]\x7b\x7d#&*!|>'\"%@".toList.contains c || c.toNat == 96

def token (ch : Char) (rest : List Char) (x : Lexer) : Option Lexer :=
  let freeStanding := x.inFlow || endsWord rest
  if x.cursor.column = 0 && ch = '%' then do
    let x ← x.toTopLevel
    let (t, c) ← directive x.cursor
    some ({ x with cursor := c }.emit t)
  else if x.cursor.atMark '-' then do some ((← x.toTopLevel).indicator .documentStart 3)
  else if x.cursor.atMark '.' then do some ((← x.toTopLevel).indicator .documentEnd 3)
  else if ch = '[' then x.flowStart .flowSequenceStart
  else if ch = '{' then x.flowStart .flowMappingStart
  else if ch = ']' then x.flowEnd .flowSequenceEnd
  else if ch = '}' then x.flowEnd .flowMappingEnd
  else if ch = ',' then x.flowEntry
  else if ch = '-' && endsWord rest then x.blockEntry .blockSequenceStart .blockEntry
  else if ch = '?' && freeStanding then x.blockEntry .blockMappingStart .key
  else if ch = ':' && freeStanding then x.value
  else if ch = '*' then x.content (scanAnchor .alias)
  else if ch = '&' then x.content (scanAnchor .anchor)
  else if ch = '!' then x.content (tag x.inFlow)
  else if ch = '|' && !x.inFlow then x.block true
  else if ch = '>' && !x.inFlow then x.block false
  else if ch = '\'' then x.content (scanQuoted true)
  else if ch = '"' then x.content (scanQuoted false)
  else if !(isBlank ch || isMark ch) || (ch = '-' && !(match rest with
      | next :: _ => isBlank next
      | [] => false)) || (!x.inFlow && (ch = '?' || ch = ':') && !endsWord rest) then x.plain
  else none

/-- Reads tokens to the end of the text, or to the first that is malformed. Tells whether the end
was reached. -/
def run : Nat → Lexer → Array Token × Bool
  | 0, x => (x.tokens, false)
  | fuel + 1, x =>
    let x := skipBlanks (x.cursor.left + 1) x
    match dropStale x.cursor x.keyPlaces with
    | none => (x.tokens, false)
    | some keyPlaces =>
      let x := { x with keyPlaces }.unroll x.cursor.column
      match x.cursor.rest with
      | [] =>
        match x.toTopLevel with
        | some x => (x.tokens.push .streamEnd, true)
        | none => (x.tokens, false)
      | ch :: rest =>
        match x.token ch rest with
        | some x => run fuel x
        | none => (x.tokens, false)

end Lexer

def tokens (text : List Char) : Array Token × Bool :=
  let text := match text with
    | '\ufeff' :: rest => rest
    | _ => text
  if text.all isAllowed then Lexer.run (text.length + 1) (Lexer.start text) else (#[], false)

end ConfigShape.Yaml
