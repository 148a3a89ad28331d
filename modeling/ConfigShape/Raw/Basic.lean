import ConfigShape.Node.Basic

namespace ConfigShape

inductive RawKey where
  | index (i : Int)
  | name (s : String)
deriving DecidableEq, Repr

inductive Raw where
  | scalar (s : Scalar)
  | container (entries : List (RawKey × Raw))

inductive ShapeFault where
  | mixedKeys (path : String)
  | unsupportedKey (path kind : String)
  | unrepresentableNumber (text : String)
deriving DecidableEq, Repr

def ShapeFault.message : ShapeFault → String
  | .mixedKeys path => "container at `" ++ path ++ "` mixes sequence indices and map keys"
  | .unsupportedKey path kind =>
    "unsupported key at `" ++ path ++ "`: " ++ kind ++ " keys are not allowed"
  | .unrepresentableNumber text => "number `" ++ text ++ "` cannot be represented as a node scalar"

namespace RawKey

def isAsciiDigit (c : Char) : Bool := '0' ≤ c && c ≤ '9'

def digits? : List Char → Option Nat
  | [] => none
  | cs => if cs.all isAsciiDigit then some (cs.foldl (fun n c => n * 10 + (c.toNat - 48)) 0) else none

/-- The integer of which this is the shortest decimal text. -/
def canonicalInt? (cs : List Char) : Option Int :=
  match cs with
  | ['0'] => some 0
  | '0' :: _ => none
  | '-' :: '0' :: _ => none
  | '-' :: ds => (digits? ds).map (fun n => -(n : Int))
  | ds => (digits? ds).map (fun n => (n : Int))

def ofName (s : String) : RawKey :=
  match canonicalInt? s.toList with
  | some i => if -0x8000_0000_0000_0000 ≤ i ∧ i < 0x8000_0000_0000_0000 then .index i else .name s
  | none => .name s

def text : RawKey → String
  | .index i => toString i
  | .name s => s

def isName : RawKey → Bool
  | .name _ => true
  | .index _ => false

end RawKey

namespace Raw

def countsFrom {α : Type} (start : Int) : List (RawKey × α) → Bool
  | [] => true
  | (k, _) :: rest => k == .index start && countsFrom (start + 1) rest

def keysAreNames {α : Type} (entries : List (RawKey × α)) : Bool :=
  !entries.isEmpty && entries.all (fun e => e.1.isName)

def keysCount {α : Type} (entries : List (RawKey × α)) : Bool :=
  !entries.isEmpty && countsFrom 0 entries

def classify {α : Type} (entries : List (RawKey × α)) : Shape :=
  if entries.isEmpty then .empty
  else if keysCount entries then .sequence
  else if keysAreNames entries then .map
  else .mixed

def childPath (path : String) (key : RawKey) : String := path ++ "." ++ key.text

mutual
/-- Classifies a tree whose place is `path`. A container is refused before its parts are looked
at. A name that comes again keeps its first place and its last value. -/
def liftAt (path : String) : Raw → Except ShapeFault Node
  | .scalar s => .ok (.scalar s)
  | .container entries =>
    match classify entries with
    | .empty => .ok (.seq [])
    | .sequence => do .ok (.seq (← liftItems path entries))
    | .map => do .ok (.map (← liftEntries path [] entries))
    | .mixed => .error (.mixedKeys path)

def liftItems (path : String) : List (RawKey × Raw) → Except ShapeFault (List Node)
  | [] => .ok []
  | (key, r) :: rest => do
    let n ← liftAt (childPath path key) r
    .ok (n :: (← liftItems path rest))

def liftEntries (path : String) (done : Entries Node) :
    List (RawKey × Raw) → Except ShapeFault (Entries Node)
  | [] => .ok done
  | (key, r) :: rest => do
    let n ← liftAt (childPath path key) r
    liftEntries path (Entries.insert key.text n done) rest
end

def lift (r : Raw) : Except ShapeFault Node := liftAt "$" r

end Raw

end ConfigShape
