import ConfigShape.Command.Run

namespace ConfigShape

namespace Gather

def namesIn (path : FilePath) : IO (Option (List String)) := do
  try
    let entries ← (System.mkFilePath [path]).readDir
    return some (entries.toList.map (fun e => e.fileName))
  catch _ => return none

/-- What is really at a path: a directory, without what is in it, or a file. Bytes are read only
on request. -/
def probe (withBytes : Bool) (path : FilePath) : IO (Option FileTree) := do
  if (← namesIn path).isSome then return some (.directory [])
  try
    if withBytes then return some (.file (← IO.FS.readBinFile path).data.toList)
    else
      let _ ← IO.FS.realPath path
      return some (.file [])
  catch _ => return none

def placeOf (files : Files) (path : FilePath) : List String :=
  path.steps.foldl (fun place s => if s = ".." then place.dropLast else place ++ [s])
    (files.start path)

def add (withBytes : Bool) (files : Files) (path : FilePath) : IO Files :=
  let segments := path.segments
  (List.range segments.length).foldlM (fun files i => do
    let path := FilePath.ofSegments (segments.take (i + 1))
    if files.isDirectory path then return files
    match ← probe withBytes path with
    | some t => return files.set (placeOf files path) t
    | none => return files) files

def addMatches : Nat → List Glob.Pattern → FilePath → Files → IO Files
  | 0, _, _, files => return files
  | _, [], _, files => return files
  | depth + 1, p :: ps, path, files => do
    let follow (parts : List Glob.Pattern) (files : Files) (name : String) : IO Files := do
      let next := Glob.childPath path name
      addMatches depth parts next (← add false files next)
    match p.name? with
    | some cs => follow ps files (String.ofList cs)
    | none =>
      let names := (← namesIn path).getD []
      let files ← names.foldlM (follow ps) files
      if p.isDeep then names.foldlM (follow (p :: ps)) files else return files

def maxDepth : Nat := 64

def addInputs (inputs : Inputs) (files : Files) : IO Files := do
  let files ← inputs.patterns.foldlM (fun files text => do
    match Glob.hasWildcard text, Glob.PathPattern.parse text with
    | true, .ok p => addMatches maxDepth p.parts (if p.absolute then "/" else ".") files
    | _, _ => return files) files
  match Inputs.paths files inputs.patterns with
  | .ok paths => paths.foldlM (add true) files
  | .error _ => return files

def files (i : Invocation) : IO Files := do
  let here := FilePath.steps (← IO.currentDir).toString
  let start : Files := ⟨FileTree.put (.directory []) here (.directory []), here⟩
  match i with
  | .normalize n => do
    let start ← (n.profile?.toList ++ n.out?.toList).foldlM (add true) start
    addInputs n.inputs start
  | .classify c => addInputs c.inputs start

end Gather

def writeBack (i : Invocation) (report : Report) : IO Unit := do
  match i with
  | .normalize ⟨_, _, _, some path, false⟩ =>
    match report.files.read path with
    | .ok bytes =>
      IO.FS.createDirAll (path.parent?.getD ".")
      IO.FS.writeBinFile path (ByteArray.mk bytes.toArray)
    | .error _ => return ()
  | _ => return ()

def usage : String :=
  "usage: config-shape normalize -i INPUT... [--select KEY] [--profile FILE] " ++
    "[--format json|yaml] [-o FILE] [--no-op]\n" ++
    "       config-shape classify -i INPUT... [--select KEY] [--no-op]\n"

/-- What the invocation can look at is gathered from the real files, it is carried out on the gathered
tree, and the file that it wrote there is written for real. -/
def carryOut (i : Invocation) : IO UInt32 := do
  let colored := (← IO.getEnv "CLICOLOR_FORCE").any (· != "0")
  let files ← if i.isIdle then pure ⟨default, []⟩ else Gather.files i
  let report := i.run ⟨colored⟩ files
  if report.code = 0 then writeBack i report
  (← IO.getStdout).putStr report.output
  (← IO.getStderr).putStr report.errors
  return report.code

end ConfigShape

open ConfigShape in
def main (args : List String) : IO UInt32 := do
  match Request.ofArguments args with
  | .run i => carryOut i
  | .help =>
    (← IO.getStdout).putStr usage
    return 0
  | .unusable =>
    (← IO.getStderr).putStr usage
    return 2
