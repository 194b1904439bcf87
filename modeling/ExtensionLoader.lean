import ExtensionLoader.Artifact.FunctionTable
import ExtensionLoader.Artifact.Globals
import ExtensionLoader.Artifact.Header
import ExtensionLoader.Artifact.InitCode
import ExtensionLoader.Artifact.Kind
import ExtensionLoader.Artifact.OfScope
import ExtensionLoader.Command.Completions
import ExtensionLoader.Command.Execute
import ExtensionLoader.Command.Generate
import ExtensionLoader.Command.Init
import ExtensionLoader.Command.Inputs
import ExtensionLoader.Command.Invocation
import ExtensionLoader.Command.List
import ExtensionLoader.Command.Terminal
import ExtensionLoader.Command.Usage
import ExtensionLoader.Diagnostic
import ExtensionLoader.Enumerant.Name
import ExtensionLoader.Enumerant.Resolution
import ExtensionLoader.Enumerant.Sections
import ExtensionLoader.Enumerant.Spec
import ExtensionLoader.Fault
import ExtensionLoader.Function.Dialect
import ExtensionLoader.Function.Spec
import ExtensionLoader.Function.Table
import ExtensionLoader.Function.TypeMap
import ExtensionLoader.Json
import ExtensionLoader.Log
import ExtensionLoader.Main
import ExtensionLoader.Manifest.Basic
import ExtensionLoader.Manifest.Printer
import ExtensionLoader.Manifest.Reader
import ExtensionLoader.Manifest.Storage
import ExtensionLoader.OrderedMap
import ExtensionLoader.Path
import ExtensionLoader.Proofs.Enumerant.Lookup
import ExtensionLoader.Proofs.Enumerant.Resolution
import ExtensionLoader.Proofs.Enumerant.Sections
import ExtensionLoader.Proofs.Enumerant.Written
import ExtensionLoader.Proofs.Function.Blocks
import ExtensionLoader.Proofs.MemoryStore
import ExtensionLoader.Proofs.OrderedMap
import ExtensionLoader.Proofs.Run.Generate
import ExtensionLoader.Proofs.Run.Tables
import ExtensionLoader.Proofs.Spec.Line
import ExtensionLoader.Proofs.Text.Blank
import ExtensionLoader.Proofs.Text.Lines
import ExtensionLoader.Proofs.Text.Split
import ExtensionLoader.Proofs.Text.Word
import ExtensionLoader.Run.Generate
import ExtensionLoader.Run.Report
import ExtensionLoader.Run.Summary
import ExtensionLoader.Run.Tables
import ExtensionLoader.Scope
import ExtensionLoader.Selection
import ExtensionLoader.Settings
import ExtensionLoader.Spec.Discovery
import ExtensionLoader.Spec.Line
import ExtensionLoader.Spec.Role
import ExtensionLoader.Storage.Directory
import ExtensionLoader.Storage.FileSystem
import ExtensionLoader.Storage.FileTree
import ExtensionLoader.Text.Blank
import ExtensionLoader.Text.Column
import ExtensionLoader.Text.Lines
import ExtensionLoader.Text.Split
import ExtensionLoader.Text.UpperCase
import ExtensionLoader.Text.Utf8
import ExtensionLoader.Text.Word
import ExtensionLoader.Workspace
import ExtensionLoader.Yaml.Character
import ExtensionLoader.Yaml.Fault
import ExtensionLoader.Yaml.Node
import ExtensionLoader.Yaml.Node.OfTokens
import ExtensionLoader.Yaml.Node.Printer
import ExtensionLoader.Yaml.Scalar.Meaning
import ExtensionLoader.Yaml.Scalar.Shape
import ExtensionLoader.Yaml.Scalar.Written
import ExtensionLoader.Yaml.Token
import ExtensionLoader.Yaml.Token.Block
import ExtensionLoader.Yaml.Token.Gap
import ExtensionLoader.Yaml.Token.Lexer
import ExtensionLoader.Yaml.Token.Plain
import ExtensionLoader.Yaml.Token.Property
import ExtensionLoader.Yaml.Token.Quoted
import ExtensionLoader.Proofs.Function.Written
import ExtensionLoader.Proofs.Artifact.Names
import ExtensionLoader.Proofs.Run.Sequence
import ExtensionLoader.Proofs.Enumerant.Reordering
import ExtensionLoader.Proofs.Artifact.Merged
import ExtensionLoader.Proofs.Run.Course
import ExtensionLoader.Proofs.Run.SharedHeader
import ExtensionLoader.Proofs.Enumerant.Extension
import ExtensionLoader.Proofs.Artifact.Text
import ExtensionLoader.Proofs.Function.TypeMap
import ExtensionLoader.Proofs.Function.WellFormed
import ExtensionLoader.Proofs.Artifact.FunctionTable
import ExtensionLoader.Proofs.Enumerant.Words
import ExtensionLoader.Proofs.Artifact.Header
import ExtensionLoader.Proofs.Artifact.Includes
import ExtensionLoader.Proofs.Artifact.Coherence
import ExtensionLoader.Proofs.Run.Includes
import ExtensionLoader.Proofs.Run.LineEndings
import ExtensionLoader.Proofs.Artifact.Directives
import ExtensionLoader.Proofs.Artifact.Macros
import ExtensionLoader.Proofs.Spec.Layout
import ExtensionLoader.Proofs.Artifact.Conditionals
import ExtensionLoader.Proofs.Artifact.Guards
import ExtensionLoader.Proofs.Run.Preprocessing
import ExtensionLoader.Proofs.Spec.NormalForm
import ExtensionLoader.Proofs.Function.LastRow
import ExtensionLoader.Proofs.Spec.Width
import ExtensionLoader.Proofs.Artifact.Platforms
import ExtensionLoader.Proofs.Run.WidthWarnings
import ExtensionLoader.Proofs.Run.Platforms
import ExtensionLoader.Proofs.Run.Summary
import ExtensionLoader.Proofs.Text.Column
import ExtensionLoader.Proofs.Artifact.Columns
import ExtensionLoader.Proofs.Selection
import ExtensionLoader.Proofs.Yaml.Character
import ExtensionLoader.Proofs.Yaml.Scalar
import ExtensionLoader.Proofs.Yaml.Lexer
import ExtensionLoader.Proofs.Yaml.Tokens
import ExtensionLoader.Proofs.Yaml.Document
import ExtensionLoader.Proofs.Yaml.Word
import ExtensionLoader.Proofs.Manifest.ReadBack
import ExtensionLoader.Proofs.Enumerant.VendorForm
import ExtensionLoader.Proofs.Path
import ExtensionLoader.Proofs.Manifest.Rebasing
