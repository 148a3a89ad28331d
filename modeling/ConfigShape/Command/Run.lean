import ConfigShape.Command.Arguments
import ConfigShape.Command.Outline
import ConfigShape.Document
import ConfigShape.Glob.Expand
import ConfigShape.Json.Printer
import ConfigShape.Profile.Load
import ConfigShape.Yaml.Printer

namespace ConfigShape

inductive Failure where
  | profile (f : LoadFault)
  | pattern (f : Glob.PatternFault)
  | noMatch (text : String)
  | unread (path : FilePath) (f : FileFault)
  | undecoded (path : FilePath) (f : DecodeFault)
  | uncreated (path : FilePath) (f : FileFault)
  | unwritten (path : FilePath) (f : FileFault)

namespace Failure

/-- The links of the chain from a failure to its causes. A text that cannot be decoded, and a
profile that cannot be read, are told together with their cause, which then stands alone too. -/
def chain : Failure → List String
  | .profile (.unread path f) => [(LoadFault.unread path f).message, f.message]
  | .profile (.profile f) => [f.message]
  | .pattern f => ["failed to resolve input file paths", f.message]
  | .noMatch text =>
    ["failed to resolve input file paths", "glob pattern matched no files: " ++ text]
  | .unread path f => ["failed to read source file " ++ path, f.message]
  | .undecoded path f =>
    ["failed to decode " ++ path] ++ [f.message?.getD "invalid YAML"] ++ f.cause?.toList
  | .uncreated path f => ["failed to create " ++ path, f.message]
  | .unwritten path f => ["failed to write " ++ path, f.message]

def message (f : Failure) : String := ": ".intercalate f.chain

end Failure

namespace Inputs

def pathsOf (files : Files) (pattern : String) : Except Failure (List FilePath) :=
  if Glob.hasWildcard pattern then
    match Glob.PathPattern.parse pattern with
    | .error f => .error (.pattern f)
    | .ok p =>
      match Glob.expand files p with
      | [] => .error (.noMatch pattern)
      | paths => .ok paths
  else .ok [pattern]

def paths (files : Files) (patterns : List String) : Except Failure (List FilePath) := do
  .ok (← patterns.mapM (pathsOf files)).flatten

end Inputs

def isJsonPath (path : FilePath) : Bool :=
  path.extension?.any (fun e => e.toList.map Char.toLower == "json".toList)

def readDocument (files : Files) (path : FilePath) : Except Failure Node :=
  match files.readText path with
  | .error f => .error (.unread path f)
  | .ok text =>
    (if isJsonPath path then Node.ofJsonText text else Node.ofYamlText text).mapError
      (.undecoded path)

namespace Inputs

def selected (inputs : Inputs) (n : Node) : Node :=
  match inputs.select? with
  | none => n
  | some path => n.itemOr path .null

def load (inputs : Inputs) (files : Files) : Except Failure (List (FilePath × Node)) := do
  let found ← paths files inputs.patterns
  found.mapM (fun path => do .ok (path, inputs.selected (← readDocument files path)))

end Inputs

def assemble : List (FilePath × Node) → Node
  | [(_, n)] => n
  | documents => .map (Entries.ofList documents)

def OutputFormat.render : OutputFormat → Node → String
  | .json, n => n.prettyText
  | .yaml, n => n.yamlText

namespace Normalization

def loadProfile (n : Normalization) (files : Files) : Except Failure Profile :=
  match n.profile? with
  | some path => (Profile.load files path).mapError .profile
  | none => .ok Profile.plain

def document (n : Normalization) (files : Files) : Except Failure Node := do
  let profile ← n.loadProfile files
  let documents ← n.inputs.load files
  .ok (assemble (documents.map (fun d => (d.1, profile.apply d.2))))

end Normalization

structure Palette where
  colored : Bool

namespace Palette

def paint (p : Palette) (code : String) (s : String) : String :=
  if p.colored then "\x1b[" ++ code ++ "m" ++ s ++ "\x1b[0m" else s

def shape (p : Palette) (n : Node) : String :=
  match n.shape? with
  | none => "scalar"
  | some .map => p.paint "36" Shape.map.label
  | some .sequence => p.paint "32" Shape.sequence.label
  | some .empty => p.paint "2" Shape.empty.label
  | some .mixed => p.paint "31" Shape.mixed.label

def failure (p : Palette) (f : Failure) : String :=
  p.paint "1;31" "error:" ++ " " ++ f.message ++ "\n"

end Palette

namespace Classification

def lines (p : Palette) : Node → List String
  | .map (e :: es) => (e :: es).map (fun e => "  " ++ e.1 ++ ": " ++ p.shape e.2)
  | n => ["  " ++ p.shape n]

def text (p : Palette) (documents : List (FilePath × Node)) : String :=
  String.join (documents.flatMap (fun d =>
    (p.paint "1" d.1 :: lines p d.2).map (fun line => line ++ "\n")))

end Classification

structure Report where
  code : UInt32
  output : String
  errors : String
  files : Files

/-- Writes a text to a file, with the directories that this needs. Those stay where writing
fails. -/
def writeOut (files : Files) (path : FilePath) (text : String) : Files × Option Failure :=
  let parent := path.parent?.getD ""
  match files.makeDirectories parent with
  | .error f => (files, some (.uncreated parent f))
  | .ok files =>
    match files.write path (Utf8.encode text) with
    | .error f => (files, some (.unwritten path f))
    | .ok files => (files, none)

namespace Report

def failed (p : Palette) (files : Files) (f : Failure) : Report := ⟨1, "", p.failure f, files⟩

end Report

namespace Normalization

def run (n : Normalization) (p : Palette) (files : Files) : Report :=
  match n.document files with
  | .error f => .failed p files f
  | .ok document =>
    let text := n.format.render document
    match n.out? with
    | none => ⟨0, text ++ "\n", "", files⟩
    | some path =>
      match writeOut files path text with
      | (files, some f) => .failed p files f
      | (files, none) => ⟨0, "", "", files⟩

end Normalization

namespace Classification

def run (c : Classification) (p : Palette) (files : Files) : Report :=
  match c.inputs.load files with
  | .error f => .failed p files f
  | .ok documents => ⟨0, text p documents, "", files⟩

end Classification

namespace Invocation

def isIdle : Invocation → Bool
  | .normalize n => n.idle
  | .classify c => c.idle

def run (i : Invocation) (p : Palette) (files : Files) : Report :=
  if i.isIdle then ⟨0, "", (Outline.ofInvocation i).text ++ "\n", files⟩
  else
    match i with
    | .normalize n => n.run p files
    | .classify c => c.run p files

end Invocation

end ConfigShape
