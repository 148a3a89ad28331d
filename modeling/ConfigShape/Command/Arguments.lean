import ConfigShape.Command.Invocation

namespace ConfigShape

inductive Request where
  | run (i : Invocation)
  | help
  | unusable
deriving DecidableEq, Repr

namespace Arguments

inductive OptionName where
  | select
  | input
  | profile
  | format
  | out
  | idle
  | help
deriving DecidableEq, Repr

def sharedOptions : List (String × OptionName) :=
  [("select", .select), ("input", .input), ("no-op", .idle), ("help", .help)]

def outputOptions : List (String × OptionName) :=
  [("profile", .profile), ("format", .format), ("out", .out)]

inductive Subcommand where
  | normalize
  | classify
deriving DecidableEq, Repr

def Subcommand.named : List (String × Subcommand) :=
  [("normalize", .normalize), ("classify", .classify)]

namespace Subcommand

def longOption? (sub : Subcommand) (name : String) : Option OptionName :=
  match sub with
  | .normalize => (sharedOptions ++ outputOptions).lookup name
  | .classify => sharedOptions.lookup name

def shortOption? (sub : Subcommand) (c : Char) : Option OptionName :=
  match sub, c with
  | _, 'i' => some .input
  | _, 'h' => some .help
  | .normalize, 'o' => some .out
  | _, _ => none

end Subcommand

inductive Word where
  | option (o : OptionName) (attached : Option String)
  | unknownOption
  | endOfOptions
  | value (s : String)
deriving DecidableEq, Repr

def shortValue : List Char → Option String
  | [] => none
  | '=' :: rest => some (String.ofList rest)
  | rest => some (String.ofList rest)

def longParts (cs : List Char) : String × Option String :=
  let name := String.ofList (cs.takeWhile (· != '='))
  match cs.dropWhile (· != '=') with
  | _ :: attached => (name, some (String.ofList attached))
  | [] => (name, none)

/-- A lone dash is a value. -/
def Word.read (sub : Subcommand) (s : String) : Word :=
  match s.toList with
  | ['-', '-'] => .endOfOptions
  | '-' :: '-' :: rest =>
    let (name, attached) := longParts rest
    match sub.longOption? name with
    | some o => .option o attached
    | none => .unknownOption
  | '-' :: c :: rest =>
    match sub.shortOption? c with
    | some .help => .option .help none
    | some o => .option o (shortValue rest)
    | none => .unknownOption
  | _ => .value s

structure Given where
  select? : Option String
  patterns : List String
  profile? : Option FilePath
  format? : Option OutputFormat
  out? : Option FilePath
  idle : Bool

def Given.nothing : Given := ⟨none, [], none, none, none, false⟩

def OutputFormat.named : List (String × OutputFormat) := [("json", .json), ("yaml", .yaml)]

/-- Takes one value of an option. Only inputs may be given again, and no path is empty. -/
def Given.take (g : Given) (o : OptionName) (value : String) : Option Given :=
  match o with
  | .select => if g.select?.isSome then none else some { g with select? := some value }
  | .input => some { g with patterns := g.patterns ++ [value] }
  | .profile =>
    if g.profile?.isSome || value.isEmpty then none else some { g with profile? := some value }
  | .format =>
    if g.format?.isSome then none
    else (OutputFormat.named.lookup value).map (fun f => { g with format? := some f })
  | .out => if g.out?.isSome || value.isEmpty then none else some { g with out? := some value }
  | .idle => none
  | .help => none

def leadingValues : List Word → List String
  | .value s :: rest => s :: leadingValues rest
  | _ => []

def takeValues (g : Given) (o : OptionName) (words : List Word) : Option (Given × Nat) :=
  let values := leadingValues words
  let values := if o = .input then values else values.take 1
  if values.isEmpty then none
  else (values.foldlM (fun (g : Given) v => g.take o v) g).map (fun g => (g, values.length))

inductive Progress where
  | done (g : Given)
  | help
  | unusable

def readWords : Nat → Given → List Word → Progress
  | 0, _, _ => .unusable
  | _, g, [] => .done g
  | _, g, [.endOfOptions] => .done g
  | _, _, .option .help attached :: _ => if attached.isSome then .unusable else .help
  | fuel + 1, g, .option .idle attached :: rest =>
    if attached.isSome || g.idle then .unusable else readWords fuel { g with idle := true } rest
  | fuel + 1, g, .option o (some value) :: rest =>
    match g.take o value with
    | some g => readWords fuel g rest
    | none => .unusable
  | fuel + 1, g, .option o none :: rest =>
    match takeValues g o rest with
    | some (g, count) => readWords fuel g (rest.drop count)
    | none => .unusable
  | _, _, _ => .unusable

def Given.inputs (g : Given) : Inputs := ⟨g.select?.map selectionOf, g.patterns⟩

def Given.request (sub : Subcommand) (g : Given) : Request :=
  if g.patterns.isEmpty then .unusable
  else
    match sub with
    | .normalize =>
      .run (.normalize ⟨g.inputs, g.profile?, g.format?.getD .json, g.out?, g.idle⟩)
    | .classify => .run (.classify ⟨g.inputs, g.idle⟩)

def ofWords (sub : Subcommand) (args : List String) : Request :=
  match readWords (args.length + 1) .nothing (args.map (Word.read sub)) with
  | .done g => g.request sub
  | .help => .help
  | .unusable => .unusable

def asksForHelp (s : String) : Bool :=
  s == "--help" || match s.toList with
    | '-' :: 'h' :: _ => true
    | _ => false

def helpOf : List String → Request
  | [] => .help
  | [name] => if name == "help" || (Subcommand.named.lookup name).isSome then .help else .unusable
  | _ => .unusable

end Arguments

open Arguments in
def Request.ofArguments : List String → Request
  | [] => .unusable
  | first :: rest =>
    match Subcommand.named.lookup first with
    | some sub => ofWords sub rest
    | none =>
      if first = "help" then helpOf rest
      else if asksForHelp first then .help
      else .unusable

end ConfigShape
