import ConfigShape.Node.Basic
import ConfigShape.Yaml.Style

namespace ConfigShape

namespace Yaml

structure Pen where
  written : List Char
  column : Nat
  /-- Nothing has to be put before the next mark to set it off. -/
  apart : Bool
  /-- The line holds nothing but indentation and marks that nodes may follow. -/
  atIndent : Bool

namespace Pen

def start : Pen := ⟨[], 0, true, true⟩

def text (p : Pen) : String := String.ofList p.written.reverse

def put (c : Char) (p : Pen) : Pen := { p with written := c :: p.written, column := p.column + 1 }

def putAll (cs : List Char) (p : Pen) : Pen := cs.foldl (fun p c => p.put c) p

def putBreak (c : Char) (p : Pen) : Pen := { p with written := c :: p.written, column := 0 }

def setOff (p : Pen) : Pen := if p.apart then p else p.put ' '

def mark (cs : String) (setsOff nodesFollow : Bool) (p : Pen) : Pen :=
  let p := (if setsOff then p.setOff else p).putAll cs.toList
  { p with apart := false, atIndent := p.atIndent && nodesFollow }

def toIndent (indent : Nat) (p : Pen) : Pen :=
  let p := if !p.atIndent || indent < p.column || (p.column == indent && !p.apart)
    then p.putBreak '\n' else p
  let p := p.putAll (List.replicate (indent - p.column) ' ')
  { p with apart := true, atIndent := true }

def afterText (p : Pen) : Pen := { p with apart := false, atIndent := false }

end Pen

def writePlain (cs : List Char) (p : Pen) : Pen :=
  (if cs.isEmpty then p else p.setOff.putAll cs).afterText

/-- A text over lines. After a break the next character is put at the indentation. `fold` doubles
the first of several breaks that are line feeds, as quotes need it. -/
def writeLines (indent : Nat) (fold : Bool) (write : Char → Pen → Pen) :
    Bool → List Char → Pen → Bool × Pen
  | afterBreak, [], p => (afterBreak, p)
  | afterBreak, c :: rest, p =>
    if isBreak c then
      let p := if fold && !afterBreak && c == '\n' then p.putBreak '\n' else p
      writeLines indent fold write true rest { p.putBreak c with atIndent := true }
    else if fold && c == ' ' then writeLines indent fold write afterBreak rest (p.put c)
    else
      let p := if afterBreak then p.toIndent indent else p
      writeLines indent fold write false rest { write c p with atIndent := false }

def writeSingleQuoted (indent : Nat) (cs : List Char) (p : Pen) : Pen :=
  let write (c : Char) (p : Pen) : Pen := if c = '\'' then (p.put c).put c else p.put c
  let (afterBreak, p) := writeLines indent true write false cs (p.mark "'" true false)
  let p := if afterBreak then p.toIndent indent else p
  (p.mark "'" false false).afterText

def hexDigits (n : Nat) : Nat → List Char
  | 0 => []
  | width + 1 =>
    hexDigits (n / 16) width ++ [Char.ofNat (if n % 16 < 10 then 48 + n % 16 else 55 + n % 16)]

def escaped (c : Char) : List Char :=
  let n := c.toNat
  if c = '"' || c = '\\' then ['\\', c]
  else if Style.isPrintable c && !isBreak c then [c]
  else
    match [(0x00, '0'), (0x07, 'a'), (0x08, 'b'), (0x09, 't'), (0x0A, 'n'), (0x0B, 'v'),
      (0x0C, 'f'), (0x0D, 'r'), (0x1B, 'e'), (0x85, 'N'), (0x2028, 'L'), (0x2029, 'P')].lookup n with
    | some e => ['\\', e]
    | none =>
      if n ≤ 0xFF then '\\' :: 'x' :: hexDigits n 2
      else if n ≤ 0xFFFF then '\\' :: 'u' :: hexDigits n 4
      else '\\' :: 'U' :: hexDigits n 8

def writeDoubleQuoted (cs : List Char) (p : Pen) : Pen :=
  (((p.mark "\"" true false).putAll (cs.flatMap escaped)).mark "\"" false false).afterText

/-- What stands after the mark of a literal text: its indentation if it begins with a space or a
break, and how it ends: without a break, or with more than one. -/
def literalHints (cs : List Char) : String :=
  let indent := if cs.head?.any Style.isSpaceOrBreak then "2" else ""
  let ending := match cs.reverse with
    | [] => "-"
    | last :: before =>
      if !isBreak last then "-"
      else if before.head?.all isBreak then "+"
      else ""
  indent ++ ending

def writeLiteral (indent : Nat) (cs : List Char) (p : Pen) : Pen :=
  let p := ((p.mark "|" true false).mark (literalHints cs) false false).putBreak '\n'
  (writeLines indent false Pen.put true cs { p with apart := true, atIndent := true }).2

def writeString (indent : Nat) (isKey : Bool) (s : String) (p : Pen) : Pen :=
  let cs := s.toList
  match Style.ofString isKey cs with
  | .plain => writePlain cs p
  | .singleQuoted => writeSingleQuoted indent cs p
  | .doubleQuoted => writeDoubleQuoted cs p
  | .literal => writeLiteral indent cs p

def writeScalar (indent : Nat) (s : Scalar) (p : Pen) : Pen :=
  match s with
  | .null => writePlain "null".toList p
  | .bool b => writePlain (if b then "true" else "false").toList p
  | .number n => writePlain (n.text Number.yamlLayout).toList p
  | .string s => writeString indent false s p

def inner (indent : Option Nat) : Nat :=
  match indent with
  | none => 0
  | some n => n + 2

def lineIndent (indent : Option Nat) : Nat := indent.getD 0 + 2

/-- A key. One that does not fit a line stands behind a question mark, its value behind a colon
on a line of its own. -/
def writeKey (indent : Nat) (key : String) (p : Pen) : Pen :=
  let p := p.toIndent indent
  if Style.fitsLine key then (writeString (indent + 2) true key p).mark ":" false false
  else
    let p := writeString (indent + 2) false key (p.mark "?" true true)
    (p.toIndent indent).mark ":" true true

mutual
def writeNode (indent : Option Nat) (underKey : Bool) : Node → Pen → Pen
  | .scalar s, p => writeScalar (lineIndent indent) s p
  | .seq [], p => p.mark "[]" true false
  | .map [], p => p.mark "\x7b\x7d" true false
  | .seq (n :: rest), p =>
    let inside := if underKey && !p.atIndent then indent.getD 0 else inner indent
    writeItems inside rest (writeNode (some inside) false n ((p.toIndent inside).mark "-" true true))
  | .map ((k, n) :: rest), p =>
    let inside := inner indent
    writeEntries inside rest (writeNode (some inside) true n (writeKey inside k p))

def writeItems (indent : Nat) : List Node → Pen → Pen
  | [], p => p
  | n :: rest, p =>
    writeItems indent rest (writeNode (some indent) false n ((p.toIndent indent).mark "-" true true))

def writeEntries (indent : Nat) : List (String × Node) → Pen → Pen
  | [], p => p
  | (k, n) :: rest, p =>
    writeEntries indent rest (writeNode (some indent) true n (writeKey indent k p))
end

end Yaml

def Node.yamlText (n : Node) : String := ((Yaml.writeNode none false n .start).toIndent 0).text

end ConfigShape
