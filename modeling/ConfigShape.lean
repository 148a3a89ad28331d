import ConfigShape.Command.Arguments
import ConfigShape.Command.Invocation
import ConfigShape.Command.Outline
import ConfigShape.Command.Run
import ConfigShape.Document
import ConfigShape.Entries
import ConfigShape.Files.Path
import ConfigShape.Files.Tree
import ConfigShape.Glob.Expand
import ConfigShape.Glob.Pattern
import ConfigShape.Json.Basic
import ConfigShape.Json.Fault
import ConfigShape.Json.Printer
import ConfigShape.Json.Reader
import ConfigShape.Main
import ConfigShape.Node.Alias
import ConfigShape.Node.Basic
import ConfigShape.Node.Combine
import ConfigShape.Node.Normalize
import ConfigShape.Node.Path
import ConfigShape.Notice
import ConfigShape.Number.Basic
import ConfigShape.Number.Double
import ConfigShape.Number.Shortest
import ConfigShape.Profile.Basic
import ConfigShape.Profile.Load
import ConfigShape.Profile.Reader
import ConfigShape.Proofs.Agreement
import ConfigShape.Proofs.AliasOrigins
import ConfigShape.Proofs.AliasSurvival
import ConfigShape.Proofs.AllowedElements
import ConfigShape.Proofs.Assembly
import ConfigShape.Proofs.Canonical
import ConfigShape.Proofs.Classification
import ConfigShape.Proofs.Collisions
import ConfigShape.Proofs.Combining
import ConfigShape.Proofs.DottedPaths
import ConfigShape.Proofs.Entries
import ConfigShape.Proofs.FlatAliases
import ConfigShape.Proofs.Independence
import ConfigShape.Proofs.IndexText
import ConfigShape.Proofs.Inputs
import ConfigShape.Proofs.JsonScalars
import ConfigShape.Proofs.JsonText
import ConfigShape.Proofs.JsonTree
import ConfigShape.Proofs.Lifting
import ConfigShape.Proofs.MergeKeys
import ConfigShape.Proofs.Merging
import ConfigShape.Proofs.Normalization
import ConfigShape.Proofs.NumberKeys
import ConfigShape.Proofs.Outcome
import ConfigShape.Proofs.PrefixMaps
import ConfigShape.Proofs.ReadBack
import ConfigShape.Proofs.Reading
import ConfigShape.Proofs.Refusal
import ConfigShape.Proofs.Repetition
import ConfigShape.Proofs.RuleInvariant
import ConfigShape.Proofs.Sections
import ConfigShape.Proofs.Selection
import ConfigShape.Proofs.WellFormed
import ConfigShape.Proofs.YamlFaults
import ConfigShape.Proofs.YamlMappings
import ConfigShape.Proofs.YamlTree
import ConfigShape.Raw.Basic
import ConfigShape.Raw.Json
import ConfigShape.Raw.Yaml
import ConfigShape.Text.Quoted
import ConfigShape.Text.Unseen
import ConfigShape.Text.Utf8
import ConfigShape.Yaml.Basic
import ConfigShape.Yaml.Cursor
import ConfigShape.Yaml.Event
import ConfigShape.Yaml.Merge
import ConfigShape.Yaml.Plain
import ConfigShape.Yaml.Printer
import ConfigShape.Yaml.Reader
import ConfigShape.Yaml.Scalar
import ConfigShape.Yaml.Style
import ConfigShape.Yaml.Tape
import ConfigShape.Yaml.Token
import ConfigShape.Proofs.Validation
