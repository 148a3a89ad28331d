import ConfigShape.Text.Quoted

namespace ConfigShape.Json

inductive Step where
  | name (s : String)
  | item (i : Nat)
  | unknown
deriving DecidableEq, Repr

inductive Found where
  | null
  | bool (b : Bool)
  | number (text : String) (isFloat : Bool)
  | string (s : String)
  | sequence
  | map
deriving DecidableEq, Repr

inductive Fault where
  | endInList
  | endInObject
  | endInString
  | endInValue
  | expectedColon
  | expectedCommaOrBracket
  | expectedCommaOrBrace
  | expectedIdent
  | expectedValue
  | invalidEscape
  | invalidNumber
  | numberOutOfRange
  | invalidCodePoint
  | controlCharacter
  | keyNotString
  | loneSurrogate
  | trailingComma
  | trailingCharacters
  | endOfEscape
  | tooDeep
  | mismatch (found : Found) (expected : String)
  | unknownField (name : String) (known : List String)
  | unknownVariant (name : String) (known : List String)
  | duplicateField (name : String)
deriving DecidableEq, Repr

def Found.text : Found → String
  | .null => "null"
  | .bool b => "boolean `" ++ (if b then "true" else "false") ++ "`"
  | .number text true => "floating point `" ++ text ++ "`"
  | .number text false => "integer `" ++ text ++ "`"
  | .string s => "string " ++ Text.quoted s
  | .sequence => "sequence"
  | .map => "map"

def choices (names : List String) : String :=
  match names.map (fun n => "`" ++ n ++ "`") with
  | [] => "nothing"
  | [a] => a
  | [a, b] => a ++ " or " ++ b
  | many => "one of " ++ ", ".intercalate many

def Fault.text : Fault → String
  | .endInList => "EOF while parsing a list"
  | .endInObject => "EOF while parsing an object"
  | .endInString => "EOF while parsing a string"
  | .endInValue => "EOF while parsing a value"
  | .expectedColon => "expected `:`"
  | .expectedCommaOrBracket => "expected `,` or `]`"
  | .expectedCommaOrBrace => "expected `,` or `\x7d`"
  | .expectedIdent => "expected ident"
  | .expectedValue => "expected value"
  | .invalidEscape => "invalid escape"
  | .invalidNumber => "invalid number"
  | .numberOutOfRange => "number out of range"
  | .invalidCodePoint => "invalid unicode code point"
  | .controlCharacter => "control character (\\u0000-\\u001F) found while parsing a string"
  | .keyNotString => "key must be a string"
  | .loneSurrogate => "lone leading surrogate in hex escape"
  | .trailingComma => "trailing comma"
  | .trailingCharacters => "trailing characters"
  | .endOfEscape => "unexpected end of hex escape"
  | .tooDeep => "recursion limit exceeded"
  | .mismatch found expected => "invalid type: " ++ found.text ++ ", expected " ++ expected
  | .unknownField name known => "unknown field `" ++ name ++ "`, expected " ++ choices known
  | .unknownVariant name known => "unknown variant `" ++ name ++ "`, expected " ++ choices known
  | .duplicateField name => "duplicate field `" ++ name ++ "`"

/-- A fault while reading, the number of bytes left after its place, and the steps to it. Line and
column are worked out from the bytes at the end. -/
structure Stop where
  fault : Fault
  left : Nat
  path : List Step

structure Error where
  fault : Fault
  line : Nat
  column : Nat
  path : List Step
deriving DecidableEq, Repr

def place (bytes : List UInt8) : Nat × Nat :=
  bytes.foldl (fun p (b : UInt8) => if b = 10 then (p.1 + 1, 0) else (p.1, p.2 + 1)) (1, 0)

def Stop.locate (stop : Stop) (bytes : List UInt8) : Error :=
  let (line, column) := place (bytes.take (bytes.length - stop.left))
  ⟨stop.fault, line, column, stop.path⟩

def Error.message (e : Error) : String :=
  e.fault.text ++ " at line " ++ toString e.line ++ " column " ++ toString e.column

abbrev Reader (α : Type) := List UInt8 → Except Stop (α × List UInt8)

def pathText : List Step → String
  | [] => "."
  | first :: rest => start first ++ String.join (rest.map next)
where
  start : Step → String
    | .name s => s
    | .item i => "[" ++ toString i ++ "]"
    | .unknown => "?"
  next : Step → String
    | .name s => "." ++ s
    | .item i => "[" ++ toString i ++ "]"
    | .unknown => ".?"

def stop {α : Type} (fault : Fault) (rest : List UInt8) : Except Stop α :=
  .error ⟨fault, rest.length, []⟩

def stopAhead {α : Type} (fault : Fault) (rest : List UInt8) : Except Stop α :=
  .error ⟨fault, rest.length - 1, []⟩

def under {α : Type} (step : Step) : Except Stop α → Except Stop α
  | .ok a => .ok a
  | .error e => .error { e with path := step :: e.path }

end ConfigShape.Json
