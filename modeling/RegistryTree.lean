import RegistryTree.Calendar
import RegistryTree.Catalog
import RegistryTree.CommandLine.Arguments
import RegistryTree.CommandLine.Request
import RegistryTree.CommandLine.Run
import RegistryTree.Failure
import RegistryTree.FileSystem
import RegistryTree.FileSystem.Change
import RegistryTree.FileSystem.Error
import RegistryTree.FileSystem.Walk
import RegistryTree.Layout
import RegistryTree.Main
import RegistryTree.Manifest
import RegistryTree.Manifest.Error
import RegistryTree.Manifest.Tree
import RegistryTree.Number.Binary64
import RegistryTree.Number.Numeral
import RegistryTree.Number.Shortest
import RegistryTree.Package
import RegistryTree.Package.Definition
import RegistryTree.Package.Field
import RegistryTree.Package.Key
import RegistryTree.Package.Release
import RegistryTree.Package.Resolution
import RegistryTree.Path
import RegistryTree.Proofs.Catalog
import RegistryTree.Proofs.Catalog.Agreement
import RegistryTree.Proofs.Catalog.Assembly
import RegistryTree.Proofs.Catalog.Channels
import RegistryTree.Proofs.Catalog.Presentation
import RegistryTree.Proofs.Catalog.Reassembly
import RegistryTree.Proofs.Catalog.Refusal
import RegistryTree.Proofs.Catalog.Selection
import RegistryTree.Proofs.Catalog.Walk
import RegistryTree.Proofs.CommandLine.Build
import RegistryTree.Proofs.CommandLine.Check
import RegistryTree.Proofs.CommandLine.Escape
import RegistryTree.Proofs.CommandLine.Run
import RegistryTree.Proofs.CommandLine.Soundness
import RegistryTree.Proofs.Document
import RegistryTree.Proofs.Except
import RegistryTree.Proofs.Failure
import RegistryTree.Proofs.FileSystem.Listing
import RegistryTree.Proofs.FileSystem.Nowhere
import RegistryTree.Proofs.FileSystem.Replacement
import RegistryTree.Proofs.FileSystem.Trail
import RegistryTree.Proofs.FileSystem.Tree
import RegistryTree.Proofs.FileSystem.Walk
import RegistryTree.Proofs.Journal
import RegistryTree.Proofs.Layout
import RegistryTree.Proofs.Layout.Entries
import RegistryTree.Proofs.Lockstep
import RegistryTree.Proofs.Manifest.Bundle
import RegistryTree.Proofs.Manifest.Contained
import RegistryTree.Proofs.Manifest.Copy
import RegistryTree.Proofs.Manifest.Creation
import RegistryTree.Proofs.Manifest.Deletion
import RegistryTree.Proofs.Manifest.Held
import RegistryTree.Proofs.Manifest.Interleaving
import RegistryTree.Proofs.Manifest.Interruption
import RegistryTree.Proofs.Manifest.Names
import RegistryTree.Proofs.Manifest.Neighbours
import RegistryTree.Proofs.Manifest.Plan
import RegistryTree.Proofs.Manifest.Reading
import RegistryTree.Proofs.Manifest.Rebuild
import RegistryTree.Proofs.Manifest.Relisting
import RegistryTree.Proofs.Manifest.RoundTrip
import RegistryTree.Proofs.Manifest.Sequence
import RegistryTree.Proofs.Manifest.Site
import RegistryTree.Proofs.Manifest.Standing
import RegistryTree.Proofs.Manifest.Success
import RegistryTree.Proofs.Manifest.Twin
import RegistryTree.Proofs.Manifest.Unmade
import RegistryTree.Proofs.Number.Numeral
import RegistryTree.Proofs.Package
import RegistryTree.Proofs.Package.Acceptance
import RegistryTree.Proofs.Package.Content
import RegistryTree.Proofs.Package.Naming
import RegistryTree.Proofs.Package.Resolution
import RegistryTree.Proofs.Path
import RegistryTree.Proofs.Text.Blank
import RegistryTree.Proofs.Text.Utf8
import RegistryTree.Proofs.Value
import RegistryTree.Proofs.Value.Agreement
import RegistryTree.Proofs.Value.Order
import RegistryTree.Proofs.Value.Ordinary
import RegistryTree.Proofs.Value.Presentation
import RegistryTree.Proofs.VersionOrder
import RegistryTree.Proofs.VersionOrder.Numbers
import RegistryTree.Proofs.VersionOrder.Permutation
import RegistryTree.Proofs.VersionOrder.Split
import RegistryTree.Proofs.Workspace
import RegistryTree.Proofs.Workspace.Atomic
import RegistryTree.Proofs.Yaml.Cursor
import RegistryTree.Proofs.Yaml.Node.Graph
import RegistryTree.Proofs.Yaml.Node.OfValue
import RegistryTree.Proofs.Yaml.Node.Ordinary
import RegistryTree.Proofs.Yaml.Node.Parser
import RegistryTree.Proofs.Yaml.Node.Presentation
import RegistryTree.Proofs.Yaml.Node.Printer
import RegistryTree.Proofs.Yaml.Node.Relabel
import RegistryTree.Proofs.Yaml.Node.ToValue
import RegistryTree.Proofs.Yaml.RoundTrip
import RegistryTree.Proofs.Yaml.Scalar.Place
import RegistryTree.Proofs.Yaml.Scalar.Plain
import RegistryTree.Proofs.Yaml.Scalar.Quoted
import RegistryTree.Proofs.Yaml.Scalar.Quoting
import RegistryTree.Proofs.Yaml.Sheet
import RegistryTree.Proofs.Yaml.Stability
import RegistryTree.Proofs.Yaml.Tag.Form
import RegistryTree.Proofs.Yaml.Token.Layout
import RegistryTree.Proofs.Yaml.Token.Lexer
import RegistryTree.Proofs.Yaml.Token.Step
import RegistryTree.Text.Base64
import RegistryTree.Text.Blank
import RegistryTree.Text.Case
import RegistryTree.Text.Cased
import RegistryTree.Text.Digit
import RegistryTree.Text.Portion
import RegistryTree.Text.Printable
import RegistryTree.Text.Quoted
import RegistryTree.Text.Utf8
import RegistryTree.Value
import RegistryTree.Value.Order
import RegistryTree.VersionOrder
import RegistryTree.Workspace
import RegistryTree.Yaml.Character
import RegistryTree.Yaml.Cursor
import RegistryTree.Yaml.Directive
import RegistryTree.Yaml.Fault
import RegistryTree.Yaml.Node
import RegistryTree.Yaml.Node.OfValue
import RegistryTree.Yaml.Node.Parser
import RegistryTree.Yaml.Node.Printer
import RegistryTree.Yaml.Node.ToValue
import RegistryTree.Yaml.Read
import RegistryTree.Yaml.Render
import RegistryTree.Yaml.Scalar.Block
import RegistryTree.Yaml.Scalar.Plain
import RegistryTree.Yaml.Scalar.Quoted
import RegistryTree.Yaml.Scalar.Shape
import RegistryTree.Yaml.Scalar.Write
import RegistryTree.Yaml.Sheet
import RegistryTree.Yaml.Tag
import RegistryTree.Yaml.Tag.Form
import RegistryTree.Yaml.Token
import RegistryTree.Yaml.Token.Lexer
