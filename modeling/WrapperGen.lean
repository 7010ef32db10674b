import WrapperGen.Aggregate.Index
import WrapperGen.Aggregate.Listing
import WrapperGen.Aggregate.Package
import WrapperGen.ClassRecord
import WrapperGen.ClassTable.Basic
import WrapperGen.ClassTable.Format
import WrapperGen.ClassTable.Problems
import WrapperGen.Command.Arguments
import WrapperGen.Command.Execution
import WrapperGen.Enumeration
import WrapperGen.Error
import WrapperGen.FileTree
import WrapperGen.Format
import WrapperGen.Generation.Aggregation
import WrapperGen.Generation.Plan
import WrapperGen.Generation.Report
import WrapperGen.Generation.Run
import WrapperGen.Generator
import WrapperGen.Host
import WrapperGen.Inheritance
import WrapperGen.Json.Dialect
import WrapperGen.Json.Number
import WrapperGen.Json.Printer
import WrapperGen.Json.Quoted
import WrapperGen.Json.Reader
import WrapperGen.Keyed
import WrapperGen.Main
import WrapperGen.Number.Double
import WrapperGen.Number.Layout
import WrapperGen.Number.Shortest
import WrapperGen.Path
import WrapperGen.Placement
import WrapperGen.Proofs.Aggregate.Contents
import WrapperGen.Proofs.Aggregate.Imports
import WrapperGen.Proofs.Aggregate.IndexTree
import WrapperGen.Proofs.Aggregate.Listing
import WrapperGen.Proofs.Aggregate.Locality
import WrapperGen.Proofs.Aggregate.MarkerDirs
import WrapperGen.Proofs.Aggregate.Markers
import WrapperGen.Proofs.Aggregate.Precedence
import WrapperGen.Proofs.Aggregate.Relisting
import WrapperGen.Proofs.Aggregate.Specifiers
import WrapperGen.Proofs.ClassTable.Problems
import WrapperGen.Proofs.ClassTable.Records
import WrapperGen.Proofs.ClassTable.UnitIndex
import WrapperGen.Proofs.Concurrency.Accounts
import WrapperGen.Proofs.Concurrency.Completion
import WrapperGen.Proofs.Concurrency.Confinement
import WrapperGen.Proofs.Concurrency.Confluence
import WrapperGen.Proofs.Concurrency.Ensures
import WrapperGen.Proofs.Concurrency.Interleaving
import WrapperGen.Proofs.Concurrency.Modules
import WrapperGen.Proofs.Concurrency.Orders
import WrapperGen.Proofs.Concurrency.Rests
import WrapperGen.Proofs.Concurrency.Script
import WrapperGen.Proofs.Concurrency.Sites
import WrapperGen.Proofs.Concurrency.Tasks
import WrapperGen.Proofs.Concurrency.Telling
import WrapperGen.Proofs.Concurrency.Together
import WrapperGen.Proofs.Documents
import WrapperGen.Proofs.FileTree.Aims
import WrapperGen.Proofs.FileTree.Footprint
import WrapperGen.Proofs.FileTree.Growth
import WrapperGen.Proofs.FileTree.Listing
import WrapperGen.Proofs.FileTree.Locate
import WrapperGen.Proofs.FileTree.Rewriting
import WrapperGen.Proofs.FileTree.Writes
import WrapperGen.Proofs.Generation.CleanCheck
import WrapperGen.Proofs.Generation.Conservation
import WrapperGen.Proofs.Generation.Footprint
import WrapperGen.Proofs.Generation.Inspection
import WrapperGen.Proofs.Generation.Overrides
import WrapperGen.Proofs.Generation.Planning
import WrapperGen.Proofs.Generation.Products
import WrapperGen.Proofs.Generation.Rerun
import WrapperGen.Proofs.Generation.Scheduling
import WrapperGen.Proofs.Generation.SelfImport
import WrapperGen.Proofs.Host.Effects
import WrapperGen.Proofs.Inheritance.Agreement
import WrapperGen.Proofs.Inheritance.Climb
import WrapperGen.Proofs.Inheritance.DefaultSuperclass
import WrapperGen.Proofs.Inheritance.Fields
import WrapperGen.Proofs.Inheritance.Lineage
import WrapperGen.Proofs.Inheritance.Outcome
import WrapperGen.Proofs.Inheritance.Properties
import WrapperGen.Proofs.Inheritance.Resolution
import WrapperGen.Proofs.Inheritance.Walk
import WrapperGen.Proofs.Json.Depth
import WrapperGen.Proofs.Json.Integers
import WrapperGen.Proofs.Json.Quoting
import WrapperGen.Proofs.Json.RoundTrip
import WrapperGen.Proofs.Linking
import WrapperGen.Proofs.Names
import WrapperGen.Proofs.Path.Components
import WrapperGen.Proofs.Path.Lexical
import WrapperGen.Proofs.Path.Order
import WrapperGen.Proofs.Placement.Containment
import WrapperGen.Proofs.Placement.FrontImport
import WrapperGen.Proofs.Placement.PackageImport
import WrapperGen.Proofs.Placement.Places
import WrapperGen.Proofs.Placement.Siblings
import WrapperGen.Proofs.Property.Literals
import WrapperGen.Proofs.Property.RoundTrip
import WrapperGen.Proofs.References
import WrapperGen.Proofs.SourceUnit.Enumeration
import WrapperGen.Proofs.SourceUnit.Selection
import WrapperGen.Proofs.Template.Lines
import WrapperGen.Proofs.Template.Reading
import WrapperGen.Proofs.Template.Shape
import WrapperGen.Proofs.UnitPath.Normal
import WrapperGen.Proofs.Wrapper.Bindings
import WrapperGen.Proofs.Wrapper.Conditions
import WrapperGen.Proofs.Wrapper.Consulted
import WrapperGen.Proofs.Wrapper.Independence
import WrapperGen.Proofs.Wrapper.Parameters
import WrapperGen.Proofs.Wrapper.Refusals
import WrapperGen.Proofs.Wrapper.Stages
import WrapperGen.Proofs.Wrapper.Traits
import WrapperGen.Property.Basic
import WrapperGen.Property.Format
import WrapperGen.Property.Literal
import WrapperGen.Reference
import WrapperGen.Settings
import WrapperGen.SourceUnit
import WrapperGen.Symbol
import WrapperGen.Target
import WrapperGen.Template.Basic
import WrapperGen.Template.Catalog
import WrapperGen.Template.Reader
import WrapperGen.Text.Affix
import WrapperGen.Text.Ascii
import WrapperGen.Text.Names
import WrapperGen.Text.Shapeless
import WrapperGen.Text.Shown
import WrapperGen.Toml.Quoted
import WrapperGen.Toml.Reader
import WrapperGen.Toml.Scalar
import WrapperGen.Toml.Table
import WrapperGen.UnitPath
import WrapperGen.Value
import WrapperGen.Wrapper.Basic
import WrapperGen.Wrapper.Build
import WrapperGen.Wrapper.Construction
import WrapperGen.Wrapper.Declaration
