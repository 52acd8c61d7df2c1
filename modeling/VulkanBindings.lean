import VulkanBindings.CommandLine
import VulkanBindings.Config.Basic
import VulkanBindings.Config.Reader
import VulkanBindings.Depends
import VulkanBindings.Emit.Facade
import VulkanBindings.Emit.Go
import VulkanBindings.Emit.Header
import VulkanBindings.Emit.Loader
import VulkanBindings.Folder
import VulkanBindings.Generate
import VulkanBindings.Graph.Apply
import VulkanBindings.Graph.Basic
import VulkanBindings.Graph.Build
import VulkanBindings.Graph.Define
import VulkanBindings.Graph.Order
import VulkanBindings.Item.Basic
import VulkanBindings.Item.Build
import VulkanBindings.Item.Version
import VulkanBindings.Log
import VulkanBindings.Program
import VulkanBindings.Registry.Basic
import VulkanBindings.Registry.Reader
import VulkanBindings.Script
import VulkanBindings.Sort
import VulkanBindings.Spelling.Basic
import VulkanBindings.Spelling.Constant
import VulkanBindings.Spelling.Declarator
import VulkanBindings.Spelling.Glossary
import VulkanBindings.Text.Blank
import VulkanBindings.Text.Casing
import VulkanBindings.Text.Casing.Table
import VulkanBindings.Text.Decimal
import VulkanBindings.Text.DecimalDigit
import VulkanBindings.Text.Number
import VulkanBindings.Text.Quoted
import VulkanBindings.Text.Quoted.Table
import VulkanBindings.Text.Utf8
import VulkanBindings.Xml.Cursor
import VulkanBindings.Xml.Error
import VulkanBindings.Xml.Fold
import VulkanBindings.Xml.Input
import VulkanBindings.Xml.Node
import VulkanBindings.Xml.Reference
import VulkanBindings.Xml.Scanner
import VulkanBindings.Xml.Shape
import VulkanBindings.Yaml.Document
import VulkanBindings.Yaml.Scalar
import VulkanBindings.Yaml.Scanner
import VulkanBindings.Yaml.Source
import VulkanBindings.Yaml.Token
import VulkanBindings.Main
import VulkanBindings.Proofs.Graph.PostOrder
import VulkanBindings.Proofs.Graph.Visits
import VulkanBindings.Proofs.Graph.Search
import VulkanBindings.Proofs.Graph.Expansions
import VulkanBindings.Proofs.Graph.Dependencies
import VulkanBindings.Proofs.Graph.Changes
import VulkanBindings.Proofs.Graph.Linking
import VulkanBindings.Proofs.Graph.Application
import VulkanBindings.Proofs.Graph.WellFormed
import VulkanBindings.Proofs.Graph.Growth
import VulkanBindings.Proofs.Graph.Requirement
import VulkanBindings.Proofs.Graph.Contribution
import VulkanBindings.Proofs.Graph.Defined
import VulkanBindings.Proofs.Graph.Blocks
import VulkanBindings.Proofs.Graph.Agreement
import VulkanBindings.Proofs.Graph.Repetition
import VulkanBindings.Proofs.Graph.Configured
import VulkanBindings.Proofs.Graph.Enumerators
import VulkanBindings.Proofs.Item.Entries
import VulkanBindings.Proofs.Item.Enumerated
import VulkanBindings.Proofs.Item.Defaults
import VulkanBindings.Proofs.Graph.Emitted
import VulkanBindings.Proofs.Item.Referred
import VulkanBindings.Proofs.Emit.Commands
import VulkanBindings.Proofs.Graph.Dictionary
import VulkanBindings.Proofs.Graph.References
import VulkanBindings.Proofs.Text.Utf8
import VulkanBindings.Proofs.Xml.References
import VulkanBindings.Proofs.Xml.Blocks
import VulkanBindings.Proofs.Xml.Scan
import VulkanBindings.Proofs.Xml.Reading
import VulkanBindings.Proofs.Registry.Blocks
import VulkanBindings.Proofs.Xml.Rendering
import VulkanBindings.Proofs.Xml.Steps
import VulkanBindings.Proofs.Xml.ReadBack
import VulkanBindings.Proofs.Registry.Comparison
import VulkanBindings.Proofs.Xml.Moves
import VulkanBindings.Proofs.Xml.Whole
import VulkanBindings.Proofs.Xml.Elements
import VulkanBindings.Proofs.Xml.Prefix
import VulkanBindings.Proofs.Registry.Extent
import VulkanBindings.Proofs.Registry.Characters
import VulkanBindings.Proofs.Registry.Nesting
import VulkanBindings.Proofs.Xml.Writer
import VulkanBindings.Proofs.Xml.Folding
import VulkanBindings.Proofs.Registry.Written
import VulkanBindings.Proofs.Xml.Remarks
import VulkanBindings.Proofs.Xml.Insertion
import VulkanBindings.Proofs.Xml.Failures
import VulkanBindings.Proofs.Xml.Boundaries
import VulkanBindings.Proofs.Xml.Misplaced
import VulkanBindings.Proofs.Graph.Restriction
import VulkanBindings.Proofs.Graph.Appending
import VulkanBindings.Proofs.Item.Synonyms
import VulkanBindings.Proofs.Emit.Handles
import VulkanBindings.Proofs.Emit.Facades
import VulkanBindings.Proofs.Emit.Closure
import VulkanBindings.Proofs.Program.Files
import VulkanBindings.Proofs.Program.Failure
import VulkanBindings.Proofs.Depends.Grammar
import VulkanBindings.Proofs.Depends.Reading
import VulkanBindings.Proofs.Depends.Spacing
import VulkanBindings.Proofs.Depends.Evaluation
import VulkanBindings.Proofs.Depends.Conditions
import VulkanBindings.Proofs.Depends.Uniform
import VulkanBindings.Proofs.Spelling.Integer
import VulkanBindings.Proofs.Item.Underlying
import VulkanBindings.Proofs.Spelling.Declarator
import VulkanBindings.Proofs.Spelling.Glossary
import VulkanBindings.Proofs.Spelling.Constant
import VulkanBindings.Proofs.Registry.Declarations
import VulkanBindings.Proofs.Item.Results
import VulkanBindings.Proofs.Item.Aliases
import VulkanBindings.Proofs.Item.Computed
import VulkanBindings.Proofs.Xml.Markup
import VulkanBindings.Proofs.Xml.Walks
import VulkanBindings.Proofs.Registry.Texts
import VulkanBindings.Proofs.Registry.Kinds
import VulkanBindings.Proofs.Registry.Attributes
import VulkanBindings.Proofs.Registry.Unnoticed
import VulkanBindings.Proofs.Xml.Passages
import VulkanBindings.Proofs.Registry.Departures
import VulkanBindings.Proofs.Registry.Reordered
import VulkanBindings.Proofs.Registry.Added
import VulkanBindings.Proofs.Registry.Selection
import VulkanBindings.Proofs.Depends.Positions
import VulkanBindings.Proofs.Emit.Names
