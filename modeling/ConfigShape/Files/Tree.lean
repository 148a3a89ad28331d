import ConfigShape.Entries
import ConfigShape.Files.Path
import ConfigShape.Text.Utf8

namespace ConfigShape

inductive FileTree where
  | file (bytes : List UInt8)
  | directory (entries : List (String × FileTree))

instance : Inhabited FileTree := ⟨.directory []⟩

inductive FileFault where
  | missing
  | alreadyThere
  | noDirectory
  | isDirectory
  | notText
deriving DecidableEq, Repr

def FileFault.message : FileFault → String
  | .missing => "No such file or directory (os error 2)"
  | .alreadyThere => "File exists (os error 17)"
  | .noDirectory => "Not a directory (os error 20)"
  | .isDirectory => "Is a directory (os error 21)"
  | .notText => "stream did not contain valid UTF-8"

namespace FileTree

def isDirectory : FileTree → Bool
  | .directory _ => true
  | .file _ => false

def at? : FileTree → List String → Option FileTree
  | t, [] => some t
  | .directory es, name :: names =>
    match Entries.get? name es with
    | some t => t.at? names
    | none => none
  | .file _, _ :: _ => none

def put (new : FileTree) : List String → FileTree → FileTree
  | [], _ => new
  | name :: names, .directory es =>
    .directory (Entries.insert name (put new names ((Entries.get? name es).getD default)) es)
  | name :: names, .file _ => .directory [(name, put new names default)]

end FileTree

structure Files where
  root : FileTree
  here : List String

namespace Files

/-- One step from a place. Two dots lead back, and from the root to the root. -/
def step (files : Files) (place : List String) (name : String) : Except FileFault (List String) :=
  match files.root.at? place with
  | some (.directory es) =>
    if name = ".." then .ok place.dropLast
    else if Entries.contains name es then .ok (place ++ [name])
    else .error .missing
  | some (.file _) => .error .noDirectory
  | none => .error .missing

def start (files : Files) (path : FilePath) : List String :=
  if path.isAbsolute then [] else files.here

def follow (files : Files) (path : FilePath) (steps : List String) :
    Except FileFault (List String) :=
  steps.foldlM (step files) (files.start path)

def locate (files : Files) (path : FilePath) : Except FileFault (List String) := do
  if path.isEmpty then .error .missing
  else
    let place ← files.follow path path.steps
    if path.asksForDirectory && !((files.root.at? place).any FileTree.isDirectory) then
      .error .noDirectory
    else .ok place

def at? (files : Files) (path : FilePath) : Option FileTree :=
  match files.locate path with
  | .ok place => files.root.at? place
  | .error _ => none

def isThere (files : Files) (path : FilePath) : Bool := (files.at? path).isSome

def isDirectory (files : Files) (path : FilePath) : Bool :=
  (files.at? path).any FileTree.isDirectory

def read (files : Files) (path : FilePath) : Except FileFault (List UInt8) := do
  let place ← files.locate path
  match files.root.at? place with
  | some (.file bytes) => .ok bytes
  | some (.directory _) => .error .isDirectory
  | none => .error .missing

def readText (files : Files) (path : FilePath) : Except FileFault String := do
  match Utf8.decode? (← files.read path) with
  | some text => .ok text
  | none => .error .notText

def set (files : Files) (place : List String) (t : FileTree) : Files :=
  { files with root := t.put place files.root }

def newPlace (files : Files) (path : FilePath) (name : String) : Except FileFault (List String) := do
  let place ← files.follow path path.steps.dropLast
  match files.root.at? place with
  | some (.directory _) => .ok (place ++ [name])
  | some (.file _) => .error .noDirectory
  | none => .error .missing

def makeDirectory (files : Files) (path : FilePath) : Except FileFault Files :=
  match files.locate path, path.steps.getLast? with
  | .ok _, _ => .error .alreadyThere
  | .error _, some name => do .ok (files.set (← files.newPlace path name) (.directory []))
  | .error e, none => .error e

/-- Makes the directories in order and stops at a fault. A directory that is there is no fault. -/
def makeAll (files : Files) : List FilePath → Except FileFault Files
  | [] => .ok files
  | path :: paths =>
    match files.makeDirectory path with
    | .ok files => files.makeAll paths
    | .error e => if files.isDirectory path then files.makeAll paths else .error e

def missingFrom (files : Files) : Nat → FilePath → List FilePath
  | 0, path => [path]
  | fuel + 1, path =>
    match files.makeDirectory path, path.parent? with
    | .error .missing, some parent =>
      if parent.isEmpty then [path] else files.missingFrom fuel parent ++ [path]
    | _, _ => [path]

/-- Makes a directory with all those that it needs. The empty path needs none. -/
def makeDirectories (files : Files) (path : FilePath) : Except FileFault Files :=
  if path.isEmpty then .ok files
  else files.makeAll (files.missingFrom path.segments.length path)

def write (files : Files) (path : FilePath) (bytes : List UInt8) : Except FileFault Files :=
  match path.steps.getLast? with
  | none => do
    let _ ← files.locate path
    .error .isDirectory
  | some name =>
    if name = ".." || path.segments.getLast? == some "." then do
      let _ ← files.locate path
      .error .isDirectory
    else do
      let place ← files.newPlace path name
      if path.asksForDirectory then .error .isDirectory
      else
        match files.root.at? place with
        | some (.directory _) => .error .isDirectory
        | _ => .ok (files.set place (.file bytes))

def names (files : Files) (path : FilePath) : List String :=
  match files.at? path with
  | some (.directory es) => (Entries.keys es).mergeSort (fun a b => decide (a ≤ b))
  | _ => []

def ofList (here : List String) (contents : List (FilePath × List UInt8)) : Files :=
  contents.foldl (fun files e => files.set (here ++ e.1.steps) (.file e.2))
    ⟨FileTree.put (.directory []) here (.directory []), here⟩

end Files

end ConfigShape
