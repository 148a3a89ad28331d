import ConfigShape.Yaml.Cursor
import ConfigShape.Yaml.Plain

namespace ConfigShape.Yaml

inductive Style where
  | plain
  | singleQuoted
  | doubleQuoted
  | literal
deriving DecidableEq, Repr

namespace Style

def isPrintable (c : Char) : Bool :=
  let n := c.toNat
  n == 0x0A || (0x20 ≤ n && n ≤ 0x7E) || (0xA0 ≤ n && n ≤ 0xD7FF) ||
    (0xE000 ≤ n && n ≤ 0xFFFD && n != 0xFEFF) || 0x10000 ≤ n

def isGap (c : Char) : Bool := isBlank c || isBreak c || c == '\x00'

def anyNeighbours (test : Char → Char → Bool) : List Char → Bool
  | a :: b :: rest => test a b || anyNeighbours test (b :: rest)
  | _ => false

def isSpaceOrBreak (c : Char) : Bool := c == ' ' || isBreak c

def isLong (cs : List Char) : Bool := cs.any isBreak

def needsEscapes (cs : List Char) : Bool :=
  anyNeighbours (fun a b => a == ' ' && isBreak b) cs || cs.any (fun c => !isPrintable c)

def hasIndentedLine (cs : List Char) : Bool := anyNeighbours (fun a b => isBreak a && b == ' ') cs

def isOpening (c : Char) : Bool := ("#,[]\x7b\x7d&*!|>'\"%@\x60".toList).contains c

def hasMarks (cs : List Char) : Bool :=
  (match cs with
    | '-' :: '-' :: '-' :: _ => true
    | '.' :: '.' :: '.' :: _ => true
    | c :: rest => isOpening c || ((c == '?' || c == ':' || c == '-') && rest.head?.all isGap)
    | [] => false) ||
    anyNeighbours (fun a b => a == ':' && isGap b) cs || cs.getLast? == some ':' ||
    anyNeighbours (fun a b => isGap a && b == '#') cs

def plainFits (cs : List Char) : Bool :=
  !(isLong cs || needsEscapes cs || hasMarks cs || cs.head?.any isSpaceOrBreak ||
    cs.getLast?.any isSpaceOrBreak)

def singleQuotesFit (cs : List Char) : Bool := !(needsEscapes cs || hasIndentedLine cs)

def literalFits (cs : List Char) : Bool :=
  !(cs.isEmpty || needsEscapes cs || cs.getLast? == some ' ')

/-- The style that is wanted before it is known to fit: a plain text that is no string when it is
read is put into quotes, and so are digits behind a zero. -/
def wanted (cs : List Char) : Style :=
  if cs.contains '\n' then .literal
  else if Plain.ofText cs != .string || Plain.isZeroPadded cs then .singleQuoted
  else .plain

/-- The style of a string. The key of an entry on one line is not written over lines. -/
def ofString (isKey : Bool) (cs : List Char) : Style :=
  let fallback := if singleQuotesFit cs then singleQuoted else .doubleQuoted
  if isKey && isLong cs then .doubleQuoted
  else
    match wanted cs with
    | .plain => if plainFits cs && !(isKey && cs.isEmpty) then .plain else fallback
    | .literal => if literalFits cs && !isKey then .literal else .doubleQuoted
    | .singleQuoted => fallback
    | .doubleQuoted => .doubleQuoted

def fitsLine (key : String) : Bool := !isLong key.toList && key.utf8ByteSize ≤ 128

end Style

end ConfigShape.Yaml
