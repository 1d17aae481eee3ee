import TypedResources.Calendar.Date
import TypedResources.Calendar.Moment
import TypedResources.Config.Job
import TypedResources.Config.Load
import TypedResources.Config.Merge
import TypedResources.Config.Options
import TypedResources.Config.Text
import TypedResources.Config.Value
import TypedResources.Discovery.Find
import TypedResources.Discovery.Tree
import TypedResources.Failure
import TypedResources.Identifier
import TypedResources.Markup.Aside
import TypedResources.Markup.Checking
import TypedResources.Markup.Declaration
import TypedResources.Markup.Document
import TypedResources.Markup.Literal
import TypedResources.Markup.Name
import TypedResources.Markup.Node
import TypedResources.Markup.Prolog
import TypedResources.Markup.Qualified
import TypedResources.Markup.Reader
import TypedResources.Markup.Text
import TypedResources.Markup.Token
import TypedResources.Markup.Uri
import TypedResources.Number.Decimal
import TypedResources.Number.Digits
import TypedResources.Number.Double
import TypedResources.Number.Integer
import TypedResources.Number.Reading
import TypedResources.Path.Absolute
import TypedResources.Path.Basic
import TypedResources.Render.AccessorClass
import TypedResources.Render.Header
import TypedResources.Render.Plumbing
import TypedResources.Render.Summary
import TypedResources.Report.Diagnostic
import TypedResources.Report.Log
import TypedResources.Report.Reporter
import TypedResources.Resource.Entry
import TypedResources.Resource.File
import TypedResources.Resource.Group
import TypedResources.Resource.Key
import TypedResources.Resource.Merge
import TypedResources.Resource.Naming
import TypedResources.Resource.Placeholder
import TypedResources.Resource.Resx
import TypedResources.Run.Generate
import TypedResources.Run.Host
import TypedResources.Run.Loading
import TypedResources.Run.Trace
import TypedResources.Settings.Lookup
import TypedResources.Settings.Options
import TypedResources.Settings.Resolve
import TypedResources.Text.Base64
import TypedResources.Text.Decode
import TypedResources.Text.Lines
import TypedResources.Unicode.Blank
import TypedResources.Unicode.Case
import TypedResources.Unicode.Digit
import TypedResources.Unicode.Letter
import TypedResources.Unicode.Printable
import TypedResources.Unicode.Spans
import TypedResources.Yaml.Block
import TypedResources.Yaml.Cursor
import TypedResources.Yaml.Document
import TypedResources.Yaml.Fault
import TypedResources.Yaml.Layout
import TypedResources.Yaml.Meaning
import TypedResources.Yaml.Node
import TypedResources.Yaml.Plain
import TypedResources.Yaml.Property
import TypedResources.Yaml.Quoted
import TypedResources.Yaml.Tag
import TypedResources.Yaml.Time
import TypedResources.Yaml.Token
import TypedResources.Proofs.Agreement
import TypedResources.Proofs.Generation
import TypedResources.Proofs.Isolation
import TypedResources.Proofs.Markup.Reading
import TypedResources.Proofs.Markup.Characters
import TypedResources.Proofs.Resolution
import TypedResources.Proofs.Survival
import TypedResources.Proofs.Merging
import TypedResources.Proofs.Account
import TypedResources.Proofs.Lowering
import TypedResources.Proofs.Splitting
import TypedResources.Proofs.Precedence
import TypedResources.Proofs.Markup.Evaluation
import TypedResources.Proofs.Partition
import TypedResources.Proofs.Cancellation
import TypedResources.Proofs.Naming
import TypedResources.Proofs.Completeness
import TypedResources.Proofs.Literals
import TypedResources.Proofs.Interleaving
import TypedResources.Proofs.Markup.Syntax
import TypedResources.Proofs.Markup.Lexing
import TypedResources.Proofs.Markup.Meaning
import TypedResources.Proofs.Markup.Assembly
import TypedResources.Proofs.Markup.Documents
import TypedResources.Proofs.Writing
import TypedResources.Proofs.RoundTrip
import TypedResources.Proofs.FirstOccurrence
import TypedResources.Proofs.Logging
import TypedResources.Proofs.Derivation
import TypedResources.Proofs.UsableNames
import TypedResources.Proofs.ClassNames
import TypedResources.Proofs.Remerging
import TypedResources.Proofs.AllOrNothing
import TypedResources.Proofs.Components
import TypedResources.Proofs.Placeholders
import TypedResources.Proofs.DocComments
import TypedResources.Proofs.AccessorOrder
import TypedResources.Proofs.TypedAccessors
import TypedResources.Proofs.Layering
import TypedResources.Proofs.ConfiguredOptions
import TypedResources.Proofs.HeaderComments
import TypedResources.Proofs.Yaml.Course
import TypedResources.Proofs.Yaml.Scanning
import TypedResources.Proofs.Yaml.Building
import TypedResources.Proofs.Yaml.Values
import TypedResources.Proofs.ConfigurationFiles
import TypedResources.Proofs.Identifiers
import TypedResources.Proofs.LetterCase
import TypedResources.Proofs.Keys
import TypedResources.Proofs.Trees
import TypedResources.Proofs.Discovery
import TypedResources.Proofs.FormatTexts
import TypedResources.Proofs.FormatArguments
