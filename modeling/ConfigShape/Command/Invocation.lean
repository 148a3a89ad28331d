import ConfigShape.Files.Path
import ConfigShape.Node.Path

namespace ConfigShape

inductive OutputFormat where
  | json
  | yaml
deriving DecidableEq, Repr

structure Inputs where
  select? : Option KeyPath
  patterns : List String
deriving DecidableEq, Repr

structure Normalization where
  inputs : Inputs
  profile? : Option FilePath
  format : OutputFormat
  out? : Option FilePath
  idle : Bool
deriving DecidableEq, Repr

structure Classification where
  inputs : Inputs
  idle : Bool
deriving DecidableEq, Repr

inductive Invocation where
  | normalize (n : Normalization)
  | classify (c : Classification)
deriving DecidableEq, Repr

/-- A selection is one key, however its text looks. -/
def selectionOf (text : String) : KeyPath := [.name text]

end ConfigShape
