import NominalGenerics.Arguments
import NominalGenerics.Ascent
import NominalGenerics.Bindings
import NominalGenerics.ClassModel.Basic
import NominalGenerics.ClassModel.Decode
import NominalGenerics.ClassModel.Files
import NominalGenerics.ClassModel.Load
import NominalGenerics.Collections.Queue
import NominalGenerics.Collections.Stack
import NominalGenerics.CommandLine.Help
import NominalGenerics.CommandLine.Options
import NominalGenerics.CommandLine.Run
import NominalGenerics.Compatibility
import NominalGenerics.Connections
import NominalGenerics.CoreLibrary
import NominalGenerics.Description
import NominalGenerics.Engine.Basic
import NominalGenerics.Engine.Cache
import NominalGenerics.Engine.Missing
import NominalGenerics.Engine.Operand
import NominalGenerics.Engine.Trace
import NominalGenerics.Expression.Reader
import NominalGenerics.Expression.Token
import NominalGenerics.Hierarchy.Ancestry
import NominalGenerics.Hierarchy.Basic
import NominalGenerics.Hierarchy.Builder
import NominalGenerics.Hierarchy.Equality
import NominalGenerics.Hierarchy.Missing
import NominalGenerics.Hierarchy.Rendering
import NominalGenerics.Locator
import NominalGenerics.Log
import NominalGenerics.Main
import NominalGenerics.NameMap
import NominalGenerics.Proofs.Acceptance
import NominalGenerics.Proofs.Acyclic
import NominalGenerics.Proofs.Aliases
import NominalGenerics.Proofs.AlphaEquivalence
import NominalGenerics.Proofs.Ancestors
import NominalGenerics.Proofs.Arrival
import NominalGenerics.Proofs.Building
import NominalGenerics.Proofs.Clashes
import NominalGenerics.Proofs.Comparing
import NominalGenerics.Proofs.Composition
import NominalGenerics.Proofs.Connecting
import NominalGenerics.Proofs.Cycles
import NominalGenerics.Proofs.Derived
import NominalGenerics.Proofs.Descent
import NominalGenerics.Proofs.Equivariance
import NominalGenerics.Proofs.Formed
import NominalGenerics.Proofs.Grammar
import NominalGenerics.Proofs.Ground
import NominalGenerics.Proofs.Hygiene
import NominalGenerics.Proofs.Instances
import NominalGenerics.Proofs.Intact
import NominalGenerics.Proofs.Invariance
import NominalGenerics.Proofs.Leftovers
import NominalGenerics.Proofs.Legible
import NominalGenerics.Proofs.Lettering
import NominalGenerics.Proofs.Levels
import NominalGenerics.Proofs.Loading
import NominalGenerics.Proofs.Locating
import NominalGenerics.Proofs.LowerBounds
import NominalGenerics.Proofs.Matching
import NominalGenerics.Proofs.Members
import NominalGenerics.Proofs.Memory
import NominalGenerics.Proofs.Outline
import NominalGenerics.Proofs.Overriding
import NominalGenerics.Proofs.Present
import NominalGenerics.Proofs.Queued
import NominalGenerics.Proofs.Reachability
import NominalGenerics.Proofs.Reading
import NominalGenerics.Proofs.Recency
import NominalGenerics.Proofs.Redirection
import NominalGenerics.Proofs.Registered
import NominalGenerics.Proofs.Renaming
import NominalGenerics.Proofs.Reordering
import NominalGenerics.Proofs.Rereading
import NominalGenerics.Proofs.Returning
import NominalGenerics.Proofs.RoundTrip
import NominalGenerics.Proofs.Scanning
import NominalGenerics.Proofs.Shortest
import NominalGenerics.Proofs.Siblings
import NominalGenerics.Proofs.Signatures
import NominalGenerics.Proofs.Sound
import NominalGenerics.Proofs.Staging
import NominalGenerics.Proofs.Supplied
import NominalGenerics.Proofs.Termination
import NominalGenerics.Proofs.Texts
import NominalGenerics.Proofs.Transitive
import NominalGenerics.Proofs.Unions
import NominalGenerics.Proofs.Untripped
import NominalGenerics.Proofs.Upward
import NominalGenerics.Proofs.Uses
import NominalGenerics.Proofs.Waiting
import NominalGenerics.Proofs.Walks
import NominalGenerics.Proofs.Whole
import NominalGenerics.Proofs.Wildcards
import NominalGenerics.Query
import NominalGenerics.Registry.Basic
import NominalGenerics.Signature
import NominalGenerics.Spec
import NominalGenerics.Substitution
import NominalGenerics.Subtyping
import NominalGenerics.Text.Blank
import NominalGenerics.Text.DecimalDigit
import NominalGenerics.Text.Graphic
import NominalGenerics.Text.Integer
import NominalGenerics.Text.Letter
import NominalGenerics.Text.Quoted
import NominalGenerics.Text.Ranges
import NominalGenerics.Text.Record
import NominalGenerics.Ty.Basic
import NominalGenerics.Ty.Identity
import NominalGenerics.Yaml.Decode
import NominalGenerics.Yaml.Document
import NominalGenerics.Yaml.Node
import NominalGenerics.Yaml.Source
import NominalGenerics.Yaml.Token.Basic
import NominalGenerics.Yaml.Token.Layout
import NominalGenerics.Yaml.Token.Property
import NominalGenerics.Yaml.Token.Scalar
