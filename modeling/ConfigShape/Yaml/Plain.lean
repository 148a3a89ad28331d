import ConfigShape.Yaml.Basic
import ConfigShape.Yaml.Scalar

namespace ConfigShape.Yaml

/-- What the text of a scalar was found to be. An integer beyond 64 bits, but within 128, is no
value at all. -/
inductive Plain where
  | null
  | bool (b : Bool)
  | number (n : YamlNumber)
  | tooLarge
  | string
deriving DecidableEq, Repr

namespace Plain

def isNull (cs : List Char) : Bool :=
  cs == ['~'] || ["null", "Null", "NULL"].any (fun w => w.toList == cs)

def bool? (cs : List Char) : Option Bool :=
  if ["true", "True", "TRUE"].any (fun w => w.toList == cs) then some true
  else if ["false", "False", "FALSE"].any (fun w => w.toList == cs) then some false
  else none

def isDigit (c : Char) : Bool := '0' ≤ c && c ≤ '9'

def digitOf? (base : Nat) (c : Char) : Option Nat :=
  match hexValue? c with
  | some n => if n < base then some n else none
  | none => none

def digits? (base : Nat) (cs : List Char) : Option Nat :=
  if cs.isEmpty then none
  else cs.foldl (fun n c => do some ((← n) * base + (← digitOf? base c))) (some 0)

def dropSign (cs : List Char) : List Char :=
  match cs with
  | '+' :: rest => rest
  | '-' :: rest => rest
  | _ => cs

def isZeroPadded (cs : List Char) : Bool :=
  match dropSign cs with
  | '0' :: d :: rest => (d :: rest).all isDigit
  | _ => false

def based? (cs : List Char) : Option Nat :=
  match cs with
  | '0' :: 'x' :: rest => digits? 16 rest
  | '0' :: 'o' :: rest => digits? 8 rest
  | '0' :: 'b' :: rest => digits? 2 rest
  | _ => none

def int? (cs : List Char) : Option Int :=
  if isZeroPadded cs then none
  else
    let magnitude (rest : List Char) : Option Nat := (based? rest).orElse (fun _ => digits? 10 rest)
    match cs with
    | '-' :: rest => (magnitude rest).map (fun n => -(n : Int))
    | '+' :: rest => (magnitude rest).map (fun n => (n : Int))
    | rest => (magnitude rest).map (fun n => (n : Int))

def exponent? (cs : List Char) : Option Int :=
  match cs with
  | '-' :: rest => (digits? 10 rest).map (fun n => -(n : Int))
  | '+' :: rest => (digits? 10 rest).map (fun n => (n : Int))
  | rest => (digits? 10 rest).map (fun n => (n : Int))

def decimal? (cs : List Char) : Option (Nat × Int) := do
  let whole := cs.takeWhile isDigit
  let rest := cs.dropWhile isDigit
  let (fraction, rest) := match rest with
    | '.' :: rest => (rest.takeWhile isDigit, rest.dropWhile isDigit)
    | _ => ([], rest)
  let n ← digits? 10 (whole ++ fraction)
  let exp ← match rest with
    | [] => some 0
    | e :: rest => if e = 'e' || e = 'E' then exponent? rest else none
  some (n, exp - (fraction.length : Int))

/-- The double nearest to a decimal; digits so far out that the result is zero or too large are
not written out. None on overflow. -/
def nearest? (negative : Bool) (n : Nat) (exp : Int) : Option Double :=
  if n = 0 then some (Double.zero negative)
  else if exp < -(n.log2 : Int) - 400 then some (Double.zero negative)
  else if 400 < exp then none
  else Double.ofDecimal? negative n exp

def float? (cs : List Char) : Option YamlNumber :=
  let isWord (w : String) (cs : List Char) : Bool := w.toList == cs
  let unsigned := match cs with
    | '+' :: rest => rest
    | _ => cs
  if [".inf", ".Inf", ".INF"].any (isWord · unsigned) then some (.infinite false)
  else if ["-.inf", "-.Inf", "-.INF"].any (isWord · cs) then some (.infinite true)
  else if [".nan", ".NaN", ".NAN"].any (isWord · cs) then some .nan
  else do
    let (negative, body) := match cs with
      | '-' :: rest => (true, rest)
      | _ => (false, unsigned)
    let (n, exp) ← decimal? body
    let d ← nearest? negative n exp
    some (.float d)

def ofInt? (i : Int) : Option Plain :=
  match Integer.ofInt? i with
  | some n => some (.number (.int n))
  | none =>
    if -(Nat.pow 2 127 : Int) ≤ i ∧ i < (Nat.pow 2 128 : Int) then some .tooLarge else none

def ofText (cs : List Char) : Plain :=
  if cs.isEmpty || isNull cs then .null
  else
    match bool? cs with
    | some b => .bool b
    | none =>
      match (int? cs).bind ofInt? with
      | some p => p
      | none =>
        if isZeroPadded cs then .string
        else
          match float? cs with
          | some n => .number n
          | none => .string

end Plain

end ConfigShape.Yaml
