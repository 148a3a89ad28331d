import ConfigShape.Node.Alias
import ConfigShape.Node.Combine

namespace ConfigShape

inductive ShapeRule where
  | keep
  | sequence
  | map
  | prefixMap
  | string
  | enumeration
deriving DecidableEq, Repr

structure SectionRule where
  shape : ShapeRule
  prefixKey : Option String
  defaultKeys : List String
  aliases : AliasTable
  allowed : Option AllowList

structure Profile where
  root : SectionRule
  sections : Entries SectionRule

def SectionRule.plain : SectionRule := ⟨.keep, none, [], [], none⟩

def Profile.plain : Profile := ⟨SectionRule.plain, []⟩

namespace SectionRule

/-- Resolves aliases, then brings the node into shape. A text of an enumeration that is not
allowed becomes null. -/
def apply (rule : SectionRule) (n : Node) : Node :=
  let n := n.resolveAliases rule.aliases
  match rule.shape with
  | .keep => n
  | .sequence =>
    match rule.allowed with
    | some allowed => .seq (allowed.keep n.toItems)
    | none => .seq n.toItems
  | .map => .map (n.toEntries rule.prefixKey)
  | .prefixMap => n.toPrefixMap rule.prefixKey rule.defaultKeys
  | .string => Node.ofString? (n.toString? rule.prefixKey)
  | .enumeration =>
    match n.toString? rule.prefixKey with
    | some s => ((rule.allowed.getD []).accept? (.string s)).getD .null
    | none => .null

def applyNotices (rule : SectionRule) (n : Node) : List Notice :=
  let resolved := n.resolveAliases rule.aliases
  n.resolveAliasesNotices rule.aliases ++
    match rule.shape with
    | .map => resolved.toEntriesNotices rule.prefixKey
    | .prefixMap => resolved.toPrefixMapNotices rule.prefixKey rule.defaultKeys
    | _ => []

end SectionRule

namespace Profile

def applySections (sections : Entries SectionRule) (es : Entries Node) : Entries Node :=
  sections.foldl (fun acc section_ => acc.modify section_.1 section_.2.apply) es

/-- The root rule first. Sections are looked for only if it gives a map. -/
def apply (p : Profile) (document : Node) : Node :=
  match p.root.apply document with
  | .map es => .map (applySections p.sections es)
  | n => n

def sectionsNotices (sections : Entries SectionRule) (es : Entries Node) : List Notice :=
  sections.flatMap (fun section_ =>
    match es.get? section_.1 with
    | some n => section_.2.applyNotices n
    | none => [])

def applyNotices (p : Profile) (document : Node) : List Notice :=
  p.root.applyNotices document ++
    match p.root.apply document with
    | .map es => sectionsNotices p.sections es
    | _ => []

end Profile

structure Profile.Flaw where
  path : String
deriving DecidableEq, Repr

namespace Profile

def rules (p : Profile) : List (String × SectionRule) :=
  ("root", p.root) :: p.sections.map (fun s => ("sections." ++ s.1, s.2))

def lacksList (rule : SectionRule) : Bool := rule.shape == .enumeration && rule.allowed.isNone

def lacksPrefix (rule : SectionRule) : Bool := rule.shape == .prefixMap && rule.prefixKey.isNone

def check : List (String × SectionRule) → List Notice × Option Flaw
  | [] => ([], none)
  | (path, rule) :: rest =>
    if lacksList rule then ([], some ⟨path ++ ".allowed"⟩)
    else
      let (notices, flaw) := check rest
      if lacksPrefix rule then (.prefixMissing path :: notices, flaw) else (notices, flaw)

end Profile

end ConfigShape
