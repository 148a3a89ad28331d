namespace ConfigShape

namespace Glob

/-- A member of a character class. A range that runs backwards holds nothing. -/
inductive ClassItem where
  | single (c : Char)
  | range (first last : Char)
deriving DecidableEq, Repr

inductive Token where
  | char (c : Char)
  | anyChar
  | anyRun
  | anyDepth
  | oneOf (items : List ClassItem)
  | noneOf (items : List ClassItem)
deriving DecidableEq, Repr

abbrev Pattern := List Token

inductive PatternFault where
  | stars (position : Nat)
  | depth (position : Nat)
  | brackets (position : Nat)
deriving DecidableEq, Repr

def PatternFault.message : PatternFault → String
  | .stars p => text p "wildcards are either regular `*` or recursive `**`"
  | .depth p => text p "recursive wildcards must form a single path component"
  | .brackets p => text p "invalid range pattern"
where
  text (position : Nat) (what : String) : String :=
    "Pattern syntax error near position " ++ toString position ++ ": " ++ what

def classItems : List Char → List ClassItem
  | a :: '-' :: b :: rest => .range a b :: classItems rest
  | c :: rest => .single c :: classItems rest
  | [] => []

def classBody? : List Char → Option (List Char × List Char)
  | [] => none
  | first :: rest =>
    match rest.dropWhile (· != ']') with
    | ']' :: after => some (first :: rest.takeWhile (· != ']'), after)
    | _ => none

def classToken? : List Char → Option (Token × List Char)
  | '!' :: rest => (classBody? rest).map (fun p => (.noneOf (classItems p.1), p.2))
  | rest => (classBody? rest).map (fun p => (.oneOf (classItems p.1), p.2))

/-- The tokens from a position on. Two stars must fill a whole part of a path. `before` is the
character before. -/
def tokensFrom : Nat → Nat → Option Char → List Char → Except PatternFault Pattern
  | 0, _, _, _ => .ok []
  | _, _, _, [] => .ok []
  | fuel + 1, position, before, c :: rest =>
    if c = '?' then do .ok (.anyChar :: (← tokensFrom fuel (position + 1) (some c) rest))
    else if c = '*' then
      let more := rest.takeWhile (· = '*')
      let after := rest.dropWhile (· = '*')
      if more.isEmpty then do .ok (.anyRun :: (← tokensFrom fuel (position + 1) (some '*') after))
      else if 1 < more.length then .error (.stars (position + 2))
      else if before.any (· != '/') then .error (.depth (position - 1))
      else
        match after with
        | [] => .ok [.anyDepth]
        | '/' :: after => do
          .ok (.anyDepth :: (← tokensFrom fuel (position + 3) (some '/') after))
        | _ => .error (.depth (position + 2))
    else if c = '[' then
      match classToken? rest with
      | some (token, after) => do
        let width := rest.length - after.length
        .ok (token :: (← tokensFrom fuel (position + 1 + width) (some ']') after))
      | none => .error (.brackets position)
    else do .ok (.char c :: (← tokensFrom fuel (position + 1) (some c) rest))

def Pattern.parse (text : List Char) : Except PatternFault Pattern :=
  tokensFrom text.length 0 none text

def ClassItem.has (c : Char) : ClassItem → Bool
  | .single d => c == d
  | .range first last => decide (first ≤ c) && decide (c ≤ last)

def Token.admits (c : Char) : Token → Bool
  | .char d => c == d
  | .anyChar => true
  | .oneOf items => items.any (ClassItem.has c)
  | .noneOf items => !items.any (ClassItem.has c)
  | .anyRun => false
  | .anyDepth => false

def anySuffix (test : List Char → Bool) : List Char → Bool
  | [] => test []
  | c :: rest => test (c :: rest) || anySuffix test rest

def Pattern.fits : Pattern → List Char → Bool
  | [], name => name.isEmpty
  | .anyRun :: ts, name => anySuffix (Pattern.fits ts) name
  | .anyDepth :: ts, name => anySuffix (Pattern.fits ts) name
  | t :: ts, name =>
    match name with
    | [] => false
    | c :: rest => t.admits c && Pattern.fits ts rest

def Pattern.name? : Pattern → Option (List Char)
  | [] => some []
  | .char c :: ts => (Pattern.name? ts).map (c :: ·)
  | _ => none

def Pattern.isDeep (p : Pattern) : Bool := p.contains .anyDepth

def hasWildcard (text : String) : Bool :=
  text.toList.any (fun c => c == '*' || c == '?' || c == '[' || c == '\x7b')

end Glob

end ConfigShape
