import ConfigShape.Files.Tree
import ConfigShape.Glob.Pattern

namespace ConfigShape

namespace Glob

structure PathPattern where
  absolute : Bool
  parts : List Pattern
  directoriesOnly : Bool

def partsOf (text : List Char) : List (List Char) :=
  let parts := FilePath.splitSlashes text
  if parts.getLast? == some [] then parts.dropLast else parts

def PathPattern.parse (text : String) : Except PatternFault PathPattern := do
  let cs := text.toList
  let _ ← Pattern.parse cs
  let absolute := FilePath.isAbsolute text
  let parts ← (partsOf (if absolute then cs.drop 1 else cs)).mapM Pattern.parse
  .ok ⟨absolute, parts, cs.getLast? == some '/'⟩

mutual
def below (here : Bool) (path : FilePath) : FileTree → List FilePath
  | .file _ => []
  | .directory es => (belowEntries here path es).flatMap Prod.snd

def belowEntries (here : Bool) (path : FilePath) :
    List (String × FileTree) → List (String × List FilePath)
  | [] => []
  | (name, t) :: rest =>
    let child := if here then name else FilePath.join path name
    place (name, child :: below false child t) (belowEntries here path rest)
where
  place (entry : String × List FilePath) :
      List (String × List FilePath) → List (String × List FilePath)
    | [] => [entry]
    | e :: es => if entry.1 < e.1 then entry :: e :: es else e :: place entry es
end

/-- The path of an entry. What is in the working directory is named without the leading dot. -/
def childPath (path : FilePath) (name : String) : FilePath :=
  if path.isHere then name else path.join name

/-- Of the two special names, those that a pattern with a dot at its beginning fits. -/
def specialNames (p : Pattern) : List String :=
  match p with
  | .char '.' :: _ => ["..", "."].filter (fun s => p.fits s.toList)
  | _ => []

def expandFrom (files : Files) : List Pattern → FilePath → List FilePath
  | [], path => [path]
  | p :: ps, path =>
    match p.name? with
    | some cs =>
      let name := String.ofList cs
      let next := childPath path name
      let found := if name == "." || name == ".." then files.isDirectory path
        else files.isThere next
      if found then expandFrom files ps next else []
    | none =>
      if !files.isDirectory path then []
      else if p.isDeep then expandDeep files ps path
      else
        (specialNames p).flatMap (fun name => expandFrom files ps (path.join name)) ++
          ((files.names path).filter (fun name => p.fits name.toList)).flatMap
            (fun name => expandFrom files ps (childPath path name))
where
  expandDeep (files : Files) : List Pattern → FilePath → List FilePath
    | [], path => (allBelow files path).filter files.isDirectory
    | p :: ps, path =>
      if p.isDeep then expandDeep files ps path
      else
        (allBelow files path).flatMap (fun found =>
          match found.name? with
          | some name => if p.fits name.toList then expandFrom files ps found else []
          | none => [])
  allBelow (files : Files) (path : FilePath) : List FilePath :=
    match files.at? path with
    | some t => below path.isHere path t
    | none => []

def expand (files : Files) (p : PathPattern) : List FilePath :=
  if p.parts.isEmpty then []
  else
    let found := expandFrom files p.parts (if p.absolute then "/" else ".")
    if p.directoriesOnly then found.filter files.isDirectory else found

end Glob

end ConfigShape
