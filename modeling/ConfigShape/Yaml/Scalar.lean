import ConfigShape.Yaml.Cursor

namespace ConfigShape.Yaml

/-- Blanks and line breaks inside a scalar: the blanks before the first break, the first break,
and the breaks after it. -/
structure Gap where
  blanks : List Char
  first : List Char
  more : List Char
  broken : Bool

namespace Gap

def none : Gap := ⟨[], [], [], false⟩

def escaped : Gap := ⟨[], [], [], true⟩

def text (g : Gap) : List Char :=
  if g.broken then
    if g.first = ['\n'] then if g.more.isEmpty then [' '] else g.more
    else g.first ++ g.more
  else g.blanks

/-- Reads on through a gap. Where a line begins, tabs before the column `indent` are refused. -/
def read (indent : Int) : Nat → Gap → Cursor → Option (Gap × Cursor)
  | 0, g, c => some (g, c)
  | fuel + 1, g, c =>
    match c.rest with
    | [] => some (g, c)
    | ch :: _ =>
      if isBlank ch then
        if g.broken then
          if ch = '\t' && (c.column : Int) < indent then Option.none else read indent fuel g c.skip
        else read indent fuel { g with blanks := g.blanks ++ [ch] } c.skip
      else
        match c.lineBreak? with
        | some (b, c) =>
          if g.broken then read indent fuel { g with more := g.more ++ [b] } c
          else read indent fuel ⟨[], [b], [], true⟩ c
        | Option.none => some (g, c)

end Gap

def isFlowMark (c : Char) : Bool := c == ',' || c == '[' || c == ']' || c == '{' || c == '}'

def plainWord (inFlow : Bool) : Nat → List Char → Cursor → Option (List Char × Cursor)
  | 0, acc, c => some (acc, c)
  | fuel + 1, acc, c =>
    match c.rest with
    | [] => some (acc, c)
    | ch :: rest =>
      if isBlank ch || isBreak ch then some (acc, c)
      else if inFlow && ch = ':' && (match rest with
          | next :: _ => isFlowMark next || next = '?'
          | [] => false) then none
      else if (ch = ':' && endsWord rest) || (inFlow && isFlowMark ch) then some (acc, c)
      else plainWord inFlow fuel (ch :: acc) c.skip

def plainWords (inFlow : Bool) (indent : Int) :
    Nat → List Char → Gap → Cursor → Option (List Char × Bool × Cursor)
  | 0, acc, gap, c => some (acc, gap.broken, c)
  | fuel + 1, acc, gap, c =>
    if c.atDocumentMark || (match c.rest with
        | '#' :: _ => true
        | _ => false) then some (acc, gap.broken, c)
    else do
      let (word, c) ← plainWord inFlow c.left [] c
      let (acc, gap) := if word.isEmpty then (acc, gap) else (word ++ gap.text.reverse ++ acc, Gap.none)
      match c.rest with
      | [] => some (acc, gap.broken, c)
      | ch :: _ =>
        if isBlank ch || isBreak ch then do
          let (gap, c) ← Gap.read indent c.left Gap.none c
          if !inFlow && (c.column : Int) < indent then some (acc, gap.broken, c)
          else plainWords inFlow indent fuel acc gap c
        else some (acc, gap.broken, c)

def plainScalar (inFlow : Bool) (indent : Int) (c : Cursor) : Option (String × Bool × Cursor) := do
  let (acc, broken, c) ← plainWords inFlow indent (c.left + 1) [] Gap.none c
  some (String.ofList acc.reverse, broken, c)

def escapeOf? : Char → Option Char
  | '0' => some '\x00'
  | 'a' => some '\x07'
  | 'b' => some '\x08'
  | 't' => some '\t'
  | '\t' => some '\t'
  | 'n' => some '\n'
  | 'v' => some '\x0b'
  | 'f' => some '\x0c'
  | 'r' => some '\r'
  | 'e' => some '\x1b'
  | ' ' => some ' '
  | '"' => some '"'
  | '/' => some '/'
  | '\\' => some '\\'
  | 'N' => some '\u0085'
  | '_' => some '\u00a0'
  | 'L' => some '\u2028'
  | 'P' => some '\u2029'
  | _ => none

def codeLength? : Char → Option Nat
  | 'x' => some 2
  | 'u' => some 4
  | 'U' => some 8
  | _ => none

def hexValue? (c : Char) : Option Nat :=
  if '0' ≤ c && c ≤ '9' then some (c.toNat - 48)
  else if 'a' ≤ c && c ≤ 'f' then some (c.toNat - 87)
  else if 'A' ≤ c && c ≤ 'F' then some (c.toNat - 55)
  else none

def hexNumber? (digits : List Char) : Option Nat :=
  digits.foldl (fun n c => do some ((← n) * 16 + (← hexValue? c))) (some 0)

def codePoint? (length : Nat) (rest : List Char) : Option Char := do
  let digits := rest.take length
  if digits.length < length then none
  else
    let n ← hexNumber? digits
    if h : n.isValidChar then some (Char.ofNatAux n h) else none

/-- The characters up to a blank, a break or the closing quote, in front of which `acc` stands
reversed. Also tells whether they end with an escaped line break. -/
def quotedWord (single : Bool) : Nat → List Char → Cursor → Option (List Char × Bool × Cursor)
  | 0, _, _ => none
  | fuel + 1, acc, c =>
    match c.rest with
    | [] => some (acc, false, c)
    | ch :: rest =>
      if isBlank ch || isBreak ch then some (acc, false, c)
      else if single then
        match ch, rest with
        | '\'', '\'' :: _ => quotedWord single fuel ('\'' :: acc) c.skip.skip
        | '\'', _ => some (acc, false, c)
        | _, _ => quotedWord single fuel (ch :: acc) c.skip
      else if ch = '"' then some (acc, false, c)
      else if ch = '\\' then
        match rest with
        | [] => none
        | e :: rest =>
          if isBreak e then some (acc, true, c.skip.skipBreak)
          else
            match escapeOf? e, codeLength? e with
            | some ch, _ => quotedWord single fuel (ch :: acc) c.skip.skip
            | none, some length => do
              let ch ← codePoint? length rest
              quotedWord single fuel (ch :: acc) (c.skipMany (2 + length))
            | none, none => none
      else quotedWord single fuel (ch :: acc) c.skip

def quotedWords (single : Bool) : Nat → List Char → Cursor → Option (List Char × Cursor)
  | 0, _, _ => none
  | fuel + 1, acc, c =>
    if c.atDocumentMark then none
    else do
      let (acc, broken, c) ← quotedWord single (c.left + 1) acc c
      match c.rest with
      | [] => none
      | ch :: _ =>
        if ch = (if single then '\'' else '"') then some (acc, c.skip)
        else do
          let (gap, c) ← Gap.read 0 c.left (if broken then Gap.escaped else Gap.none) c
          quotedWords single fuel (gap.text.reverse ++ acc) c

def quotedScalar (single : Bool) (c : Cursor) : Option (String × Cursor) := do
  let (acc, c) ← quotedWords single (c.left + 1) [] c.skip
  some (String.ofList acc.reverse, c)

inductive Chomping where
  | strip
  | clip
  | keep
deriving DecidableEq, Repr

def chompingOf? : Char → Option Chomping
  | '+' => some .keep
  | '-' => some .strip
  | _ => none

def indentationOf? (c : Char) : Option (Option Nat) :=
  if c = '0' then some none
  else if '1' ≤ c && c ≤ '9' then some (some (c.toNat - 48))
  else none

def blockHeader (c : Cursor) : Option (Chomping × Nat × Cursor) :=
  let chomping (c : Cursor) : Chomping × Cursor :=
    match c.rest with
    | ch :: _ =>
      match chompingOf? ch with
      | some m => (m, c.skip)
      | none => (.clip, c)
    | [] => (.clip, c)
  let indentation (c : Cursor) : Option (Nat × Cursor) :=
    match c.rest with
    | ch :: _ =>
      match indentationOf? ch with
      | some (some n) => some (n, c.skip)
      | some none => none
      | none => some (0, c)
    | [] => some (0, c)
  match c.rest with
  | ch :: _ =>
    if (chompingOf? ch).isSome then do
      let (m, c) := chomping c
      let (n, c) ← indentation c
      some (m, n, c)
    else do
      let (n, c) ← indentation c
      if n = 0 then some (.clip, 0, c)
      else
        let (m, c) := chomping c
        some (m, n, c)
  | [] => some (.clip, 0, c)

/-- Indentation and empty lines before a line of a block scalar; also the widest indentation
seen. With an indentation of zero every space counts. -/
def blockBreaks (indent : Nat) : Nat → Nat → List Char → Cursor → Option (Nat × List Char × Cursor)
  | 0, widest, breaks, c => some (widest, breaks, c)
  | fuel + 1, widest, breaks, c =>
    let spaces := (c.rest.takeWhile (· == ' ')).length
    let c := c.skipMany (if indent = 0 then spaces else min spaces (indent - c.column))
    let widest := max widest c.column
    if (indent = 0 || c.column < indent) && (match c.rest with
        | '\t' :: _ => true
        | _ => false) then none
    else
      match c.lineBreak? with
      | some (b, c) => blockBreaks indent fuel widest (breaks ++ [b]) c
      | none => some (widest, breaks, c)

structure BlockState where
  acc : List Char
  lineEnd : List Char
  breaks : List Char
  leadingBlank : Bool

def blockLines (literal : Bool) (indent : Nat) : Nat → BlockState → Cursor → Option (BlockState × Cursor)
  | 0, st, c => some (st, c)
  | fuel + 1, st, c =>
    match c.rest with
    | [] => some (st, c)
    | ch :: _ =>
      if c.column ≠ indent then some (st, c)
      else do
        let blank := isBlank ch
        let fold := !literal && st.lineEnd == ['\n'] && !st.leadingBlank && !blank
        let joint :=
          if fold then if st.breaks.isEmpty then [' '] else st.breaks
          else st.lineEnd ++ st.breaks
        let (line, c) := c.takeWhile (fun _ => true)
        let (lineEnd, c) := match c.lineBreak? with
          | some (b, c) => ([b], c)
          | none => ([], c)
        let (_, breaks, c) ← blockBreaks indent (c.left + 1) 0 [] c
        blockLines literal indent fuel
          ⟨line.reverse ++ joint.reverse ++ st.acc, lineEnd, breaks, blank⟩ c

def blockScalar (literal : Bool) (parent : Int) (c : Cursor) : Option (String × Cursor) := do
  let (chomping, increment, c) ← blockHeader c.skip
  let c ← c.skipToLineEnd?
  let given := if increment = 0 then 0 else (max parent 0).toNat + increment
  let (widest, breaks, c) ← blockBreaks given (c.left + 1) 0 [] c
  let indent := if given = 0 then max (max widest (parent + 1).toNat) 1 else given
  let (st, c) ← blockLines literal indent (c.left + 1) ⟨[], [], breaks, false⟩ c
  let tail := match chomping with
    | .strip => []
    | .clip => st.lineEnd
    | .keep => st.lineEnd ++ st.breaks
  some (String.ofList (st.acc.reverse ++ tail), c)

end ConfigShape.Yaml
