namespace ConfigShape

abbrev FilePath := String

namespace FilePath

def splitSlashes : List Char → List (List Char)
  | [] => [[]]
  | c :: rest =>
    if c = '/' then [] :: splitSlashes rest
    else match splitSlashes rest with
      | part :: parts => (c :: part) :: parts
      | [] => [[c]]

def segments (path : FilePath) : List String := (splitSlashes path.toList).map String.ofList

def isAbsolute (path : FilePath) : Bool := path.toList.head? == some '/'

def isIdle (segment : String) : Bool := segment == "" || segment == "."

def steps (path : FilePath) : List String := path.segments.filter (fun s => !isIdle s)

/-- Only a directory can be at this path: it ends in a slash or in a lone dot. -/
def asksForDirectory (path : FilePath) : Bool :=
  match path.segments.getLast? with
  | some s => isIdle s
  | none => false

def trimIdle : List String → List String
  | [] => []
  | first :: rest => first :: (rest.reverse.dropWhile isIdle).reverse

def ofSegments (segments : List String) : FilePath :=
  if segments = [""] then "/" else "/".intercalate segments

def parent? (path : FilePath) : Option FilePath :=
  let parts := trimIdle path.segments
  if parts = [""] then none else some (ofSegments (trimIdle parts.dropLast))

def name? (path : FilePath) : Option String :=
  match (trimIdle path.segments).getLast? with
  | some s => if isIdle s || s == ".." then none else some s
  | none => none

/-- What follows the last dot of the name, if a dot is there and not at its beginning. -/
def extension? (path : FilePath) : Option String := do
  let cs := (← path.name?).toList
  let ending := cs.reverse.takeWhile (· != '.')
  let stem := (cs.reverse.dropWhile (· != '.')).drop 1
  if stem.isEmpty then none else some (String.ofList ending.reverse)

def isHere (path : FilePath) : Bool := trimIdle path.segments == ["."]

def join (path : FilePath) (name : String) : FilePath :=
  if path.isEmpty || path.toList.getLast? == some '/' then path ++ name else path ++ "/" ++ name

end FilePath

end ConfigShape
