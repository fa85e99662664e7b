import Formulary.CommandLine
import Formulary.CommandLine.Arguments
import Formulary.CommandLine.Help
import Formulary.CommandLine.Invocation
import Formulary.Config
import Formulary.Dataset
import Formulary.Delta
import Formulary.Document
import Formulary.Document.Fault
import Formulary.Document.Label
import Formulary.Document.Node
import Formulary.Extension
import Formulary.Field
import Formulary.Finite.Order
import Formulary.Finite.SortedMap
import Formulary.Finite.SortedSet
import Formulary.FormError
import Formulary.Instance
import Formulary.InstanceQuery
import Formulary.Iri
import Formulary.Json
import Formulary.Json.Encoding
import Formulary.Json.Reader
import Formulary.Json.Record
import Formulary.LanguageTag
import Formulary.Main
import Formulary.NTriples.Reader
import Formulary.NTriples.Writer
import Formulary.Namespaces
import Formulary.Path
import Formulary.Pattern
import Formulary.Pattern.Evaluation
import Formulary.Pattern.Sparql
import Formulary.Proofs.AddedField
import Formulary.Proofs.AnchoredOptionals
import Formulary.Proofs.BlankNodeRemoval
import Formulary.Proofs.BlankScopes
import Formulary.Proofs.CacheHistory
import Formulary.Proofs.CellLabels
import Formulary.Proofs.CellOutcomes
import Formulary.Proofs.CellQuestions
import Formulary.Proofs.DatasetPairs
import Formulary.Proofs.DocumentTriples
import Formulary.Proofs.ExclusiveRows
import Formulary.Proofs.Failure
import Formulary.Proofs.FieldIndependence
import Formulary.Proofs.FieldListing
import Formulary.Proofs.FieldResolution
import Formulary.Proofs.FiniteContent
import Formulary.Proofs.FieldRows
import Formulary.Proofs.FieldVariables
import Formulary.Proofs.ForkedLists
import Formulary.Proofs.GeneratorResolution
import Formulary.Proofs.GrammarTokens
import Formulary.Proofs.GroundDelta
import Formulary.Proofs.GuardedWalk
import Formulary.Proofs.IndependentOptionals
import Formulary.Proofs.InstanceDeletion
import Formulary.Proofs.InstanceSelection
import Formulary.Proofs.InstanceSolutions
import Formulary.Proofs.InstanceValues
import Formulary.Proofs.LabelIndependence
import Formulary.Proofs.ListReader
import Formulary.Proofs.ListWalk
import Formulary.Proofs.MergedIdentity
import Formulary.Proofs.MergedPaths
import Formulary.Proofs.NTriplesRoundTrip
import Formulary.Proofs.PathRows
import Formulary.Proofs.PrintedQuery
import Formulary.Proofs.QueryRoundTrip
import Formulary.Proofs.RdfXmlTriples
import Formulary.Proofs.Reachability
import Formulary.Proofs.Relabelling
import Formulary.Proofs.RootVariables
import Formulary.Proofs.SchemaFolding
import Formulary.Proofs.ScopedImports
import Formulary.Proofs.ShortNames
import Formulary.Proofs.SnapshotContent
import Formulary.Proofs.SnapshotDelta
import Formulary.Proofs.SolutionAlgebra
import Formulary.Proofs.SparqlGrammar
import Formulary.Proofs.SparqlRoundTrip
import Formulary.Proofs.SparqlTokens
import Formulary.Proofs.StackedExtensions
import Formulary.Proofs.Substitution
import Formulary.Proofs.TurtleGrammar
import Formulary.Proofs.TurtleRoundTrip
import Formulary.Proofs.TurtleTokens
import Formulary.Proofs.TurtleTriples
import Formulary.Proofs.TwoFields
import Formulary.Proofs.UnsupportedModifiers
import Formulary.Proofs.UpdateRoundTrip
import Formulary.Proofs.Valuation
import Formulary.Proofs.WellDesigned
import Formulary.Proofs.WrittenLists
import Formulary.Proofs.WrittenTerms
import Formulary.RdfXml.Reader
import Formulary.RdfXml.Scope
import Formulary.Resolution
import Formulary.Resolution.Cell
import Formulary.Resolution.Defect
import Formulary.Resolution.Question
import Formulary.Resolution.Walk
import Formulary.SchemaCache
import Formulary.Term
import Formulary.Text.Blank
import Formulary.Text.CodePoint
import Formulary.Text.Digest
import Formulary.Text.GraphemeBase
import Formulary.Text.Name
import Formulary.Text.Scan
import Formulary.Text.Shown
import Formulary.Turtle.Reader
import Formulary.Turtle.Terminal
import Formulary.Turtle.Writer
import Formulary.Vocabulary
import Formulary.Xml.Event
import Formulary.Xml.Reference
