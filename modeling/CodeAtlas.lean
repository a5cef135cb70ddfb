import CodeAtlas.Cli.Arguments
import CodeAtlas.Cli.Database
import CodeAtlas.Cli.Report
import CodeAtlas.Cli.Run
import CodeAtlas.Digest.Sha256
import CodeAtlas.Error
import CodeAtlas.Files.Glob
import CodeAtlas.Files.Ignore
import CodeAtlas.Files.Name
import CodeAtlas.Files.Path
import CodeAtlas.Files.Scan
import CodeAtlas.Files.Tree
import CodeAtlas.Http.Form
import CodeAtlas.Http.Registration
import CodeAtlas.Http.Requests
import CodeAtlas.Http.Route
import CodeAtlas.Index.Job
import CodeAtlas.Index.Plan
import CodeAtlas.Index.Run
import CodeAtlas.Index.Status
import CodeAtlas.Index.Workers
import CodeAtlas.Java.Bindings
import CodeAtlas.Java.Call
import CodeAtlas.Java.FrontEnd
import CodeAtlas.Java.Grammar
import CodeAtlas.Java.Grammar.Declarations
import CodeAtlas.Java.Grammar.Expressions
import CodeAtlas.Java.Grammar.Statements
import CodeAtlas.Java.Grammar.Types
import CodeAtlas.Java.Outline
import CodeAtlas.Java.Rule
import CodeAtlas.Java.Scope
import CodeAtlas.Java.Source
import CodeAtlas.Java.Token
import CodeAtlas.Java.Tree
import CodeAtlas.Json.Answers
import CodeAtlas.Json.Basic
import CodeAtlas.Json.Parser
import CodeAtlas.Json.Records
import CodeAtlas.Layer
import CodeAtlas.Main
import CodeAtlas.Number.Binary64
import CodeAtlas.Number.Fixed
import CodeAtlas.Number.Reader
import CodeAtlas.Number.Shortest
import CodeAtlas.Number.Word
import CodeAtlas.Pattern.Like
import CodeAtlas.Pattern.Wildcard
import CodeAtlas.Query.AnnotationSearch
import CodeAtlas.Query.CallChain
import CodeAtlas.Query.Fault
import CodeAtlas.Query.SourceText
import CodeAtlas.Query.SymbolSearch
import CodeAtlas.Registry
import CodeAtlas.Service
import CodeAtlas.Settings
import CodeAtlas.Store.Basic
import CodeAtlas.Store.FullText
import CodeAtlas.Store.Image
import CodeAtlas.Store.Lookup
import CodeAtlas.Store.Stats
import CodeAtlas.Store.Table
import CodeAtlas.Store.Transaction
import CodeAtlas.Symbol
import CodeAtlas.Text.Blank
import CodeAtlas.Text.CodePoints
import CodeAtlas.Text.Identifier
import CodeAtlas.Text.LetterCase
import CodeAtlas.Text.Lines
import CodeAtlas.Text.SearchToken
import CodeAtlas.Text.Utf8
import CodeAtlas.Vcs.ChangeSet
import CodeAtlas.Vcs.Git
import CodeAtlas.Proofs.CallChain.Distance
import CodeAtlas.Proofs.Files.Trees
import CodeAtlas.Proofs.Index.Attached
import CodeAtlas.Proofs.Index.History
import CodeAtlas.Proofs.Index.Incremental
import CodeAtlas.Proofs.Index.Survival
import CodeAtlas.Proofs.Store.Histories
import CodeAtlas.Proofs.Store.Share
import CodeAtlas.Proofs.Store.Declared
import CodeAtlas.Proofs.Store.Catalog
import CodeAtlas.Proofs.Store.Counts
import CodeAtlas.Proofs.Store.Codecs
import CodeAtlas.Proofs.Store.Reads
import CodeAtlas.Proofs.Files.Disk
import CodeAtlas.Proofs.Files.Scans
import CodeAtlas.Proofs.Index.Tracking
import CodeAtlas.Proofs.Index.Isolation
import CodeAtlas.Proofs.CallChain.Calls
import CodeAtlas.Proofs.Java.Naming
import CodeAtlas.Proofs.Java.Resolution
import CodeAtlas.Proofs.Java.Knowledge
import CodeAtlas.Proofs.Java.CallTypes
import CodeAtlas.Proofs.Java.Linking
import CodeAtlas.Proofs.Java.Positions
import CodeAtlas.Proofs.Java.Declarations
import CodeAtlas.Proofs.Java.Spans
import CodeAtlas.Proofs.Java.Invocations
import CodeAtlas.Proofs.Java.FieldCalls
import CodeAtlas.Proofs.Java.Literals
import CodeAtlas.Proofs.Java.AnnotationText
import CodeAtlas.Proofs.CallChain.Monotone
import CodeAtlas.Proofs.Index.Exclusion
import CodeAtlas.Proofs.Index.Failure
import CodeAtlas.Proofs.Index.Accounting
import CodeAtlas.Proofs.Index.Rerun
import CodeAtlas.Proofs.CallChain.Duality
import CodeAtlas.Proofs.CallChain.Termination
import CodeAtlas.Proofs.Pattern.Language
import CodeAtlas.Proofs.Pattern.Matcher
import CodeAtlas.Proofs.Pattern.Like
import CodeAtlas.Proofs.Query.AnnotationPages
import CodeAtlas.Proofs.Query.AnnotationValues
import CodeAtlas.Proofs.Text.Lines
import CodeAtlas.Proofs.Text.Parts
import CodeAtlas.Proofs.Vcs.Records
import CodeAtlas.Proofs.Vcs.SkippedRecords
import CodeAtlas.Proofs.Index.Origins
import CodeAtlas.Proofs.Java.Layout
import CodeAtlas.Proofs.Java.Rules
import CodeAtlas.Proofs.Java.Goals
import CodeAtlas.Proofs.Java.Parsing
import CodeAtlas.Proofs.Java.Words
import CodeAtlas.Proofs.Java.NameLines
import CodeAtlas.Proofs.Java.Displaced
import CodeAtlas.Proofs.Java.DisplacedGoals
import CodeAtlas.Proofs.Java.DisplacedEnds
import CodeAtlas.Proofs.Java.Comments
import CodeAtlas.Proofs.Java.CallTexts
import CodeAtlas.Proofs.Java.CommentedCalls
import CodeAtlas.Proofs.Java.Insertion
import CodeAtlas.Proofs.Text.Utf8
import CodeAtlas.Proofs.Query.SourceLines
import CodeAtlas.Proofs.Query.SymbolRanks
import CodeAtlas.Proofs.CallChain.BreadthFirst
import CodeAtlas.Proofs.Files.SourceRoots
import CodeAtlas.Proofs.Java.TypeNames
import CodeAtlas.Proofs.Pattern.Positions
