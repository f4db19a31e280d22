import PackageAtlas.Build.Constraint
import PackageAtlas.Build.Context
import PackageAtlas.Build.Header
import PackageAtlas.Check.CallRules
import PackageAtlas.Check.Constant
import PackageAtlas.Check.DeclRules
import PackageAtlas.Check.ExprRules
import PackageAtlas.Check.LiteralRules
import PackageAtlas.Check.NameRules
import PackageAtlas.Check.Operand
import PackageAtlas.Check.OperatorRules
import PackageAtlas.Check.Package
import PackageAtlas.Check.Problem
import PackageAtlas.Check.State
import PackageAtlas.Check.StmtRules
import PackageAtlas.Check.Task
import PackageAtlas.Check.TypeRules
import PackageAtlas.Check.ValueRules
import PackageAtlas.Load.Dedupe
import PackageAtlas.Load.Directory
import PackageAtlas.Load.Discovery
import PackageAtlas.Load.Error
import PackageAtlas.Load.Graph
import PackageAtlas.Load.Importer
import PackageAtlas.Load.Lifetime
import PackageAtlas.Load.Loader
import PackageAtlas.Load.RawPackage
import PackageAtlas.Load.Resolved
import PackageAtlas.Load.Site
import PackageAtlas.Load.Workspace
import PackageAtlas.Parse.DeclRules
import PackageAtlas.Parse.ExprRules
import PackageAtlas.Parse.Failure
import PackageAtlas.Parse.File
import PackageAtlas.Parse.Goal
import PackageAtlas.Parse.Parser
import PackageAtlas.Parse.StmtRules
import PackageAtlas.Parse.TypeRules
import PackageAtlas.Project.Config
import PackageAtlas.Project.FileTree
import PackageAtlas.Project.Path
import PackageAtlas.Project.Pattern
import PackageAtlas.Project.Preprocessor
import PackageAtlas.Project.Wildcard
import PackageAtlas.Proofs.Constants.Arithmetic
import PackageAtlas.Proofs.Constants.Denotation
import PackageAtlas.Proofs.Constants.Exactness
import PackageAtlas.Proofs.Constants.Groups
import PackageAtlas.Proofs.Constants.Initializers
import PackageAtlas.Proofs.Constants.Locals
import PackageAtlas.Proofs.Constants.Operators
import PackageAtlas.Proofs.Constants.Placement
import PackageAtlas.Proofs.Constants.Specs
import PackageAtlas.Proofs.Constraints.Clauses
import PackageAtlas.Proofs.Constraints.Grammar
import PackageAtlas.Proofs.Constraints.Headers
import PackageAtlas.Proofs.Constraints.Legacy
import PackageAtlas.Proofs.Dedupe.Collisions
import PackageAtlas.Proofs.Dedupe.EmptyRenaming
import PackageAtlas.Proofs.Dedupe.Fates
import PackageAtlas.Proofs.Dedupe.FileDedupe
import PackageAtlas.Proofs.Dedupe.MethodClaims
import PackageAtlas.Proofs.Dedupe.NameClaims
import PackageAtlas.Proofs.Dedupe.PackageDedupe
import PackageAtlas.Proofs.Dedupe.Renaming
import PackageAtlas.Proofs.Dedupe.Traces
import PackageAtlas.Proofs.Discovery.Division
import PackageAtlas.Proofs.Discovery.Identities
import PackageAtlas.Proofs.Discovery.Substitutes
import PackageAtlas.Proofs.History.Answers
import PackageAtlas.Proofs.History.Checks
import PackageAtlas.Proofs.History.Directory
import PackageAtlas.Proofs.History.Groups
import PackageAtlas.Proofs.History.Handles
import PackageAtlas.Proofs.History.Independence
import PackageAtlas.Proofs.History.Loads
import PackageAtlas.Proofs.History.Paths
import PackageAtlas.Proofs.History.Patterns
import PackageAtlas.Proofs.History.Places
import PackageAtlas.Proofs.History.Visits
import PackageAtlas.Proofs.History.Walks
import PackageAtlas.Proofs.Imports.Cached
import PackageAtlas.Proofs.Imports.Dotless
import PackageAtlas.Proofs.Imports.Ends
import PackageAtlas.Proofs.Imports.Leads
import PackageAtlas.Proofs.Imports.Memo
import PackageAtlas.Proofs.Lexing.Boundaries
import PackageAtlas.Proofs.Lexing.Comments
import PackageAtlas.Proofs.Lexing.Terminators
import PackageAtlas.Proofs.Lookup.Answers
import PackageAtlas.Proofs.Lookup.Growth
import PackageAtlas.Proofs.Lookup.Handles
import PackageAtlas.Proofs.Lookup.Members
import PackageAtlas.Proofs.Lookup.Names
import PackageAtlas.Proofs.Lookup.Sessions
import PackageAtlas.Proofs.Lookup.Settled
import PackageAtlas.Proofs.Lookup.Specifiers
import PackageAtlas.Proofs.Lookup.Standing
import PackageAtlas.Proofs.Naming.Calls
import PackageAtlas.Proofs.Naming.DeclRules
import PackageAtlas.Proofs.Naming.Declarations
import PackageAtlas.Proofs.Naming.Directories
import PackageAtlas.Proofs.Naming.ExprRules
import PackageAtlas.Proofs.Naming.Lifetimes
import PackageAtlas.Proofs.Naming.Marks
import PackageAtlas.Proofs.Naming.NameRules
import PackageAtlas.Proofs.Naming.Outlines
import PackageAtlas.Proofs.Naming.Package
import PackageAtlas.Proofs.Naming.Records
import PackageAtlas.Proofs.Naming.Renaming
import PackageAtlas.Proofs.Naming.Roles
import PackageAtlas.Proofs.Naming.Steps
import PackageAtlas.Proofs.Naming.StmtRules
import PackageAtlas.Proofs.Naming.Stores
import PackageAtlas.Proofs.Naming.Translations
import PackageAtlas.Proofs.Naming.Trees
import PackageAtlas.Proofs.Naming.TypeRules
import PackageAtlas.Proofs.Operators.Fitting
import PackageAtlas.Proofs.Operators.Formulas
import PackageAtlas.Proofs.Operators.Precedence
import PackageAtlas.Proofs.Passes.Leaves
import PackageAtlas.Proofs.Passes.Order
import PackageAtlas.Proofs.Passes.Vendoring
import PackageAtlas.Proofs.Positions.Lines
import PackageAtlas.Proofs.Positions.Ranges
import PackageAtlas.Proofs.Printing.Evaluation
import PackageAtlas.Proofs.Printing.Reading
import PackageAtlas.Proofs.Printing.Words
import PackageAtlas.Proofs.Relations.Identity
import PackageAtlas.Proofs.Relations.MethodLists
import PackageAtlas.Proofs.Relations.Promotion
import PackageAtlas.Proofs.Relocation.ExprRules
import PackageAtlas.Proofs.Relocation.File
import PackageAtlas.Proofs.Relocation.Nodes
import PackageAtlas.Proofs.Relocation.Parser
import PackageAtlas.Proofs.Relocation.StmtRules
import PackageAtlas.Proofs.Relocation.Tree
import PackageAtlas.Proofs.Renaming.Members
import PackageAtlas.Proofs.Renaming.Unnamed
import PackageAtlas.Proofs.Resolution.Collection
import PackageAtlas.Proofs.Resolution.Cycles
import PackageAtlas.Proofs.Resolution.DeclRules
import PackageAtlas.Proofs.Resolution.Depths
import PackageAtlas.Proofs.Resolution.Ends
import PackageAtlas.Proofs.Resolution.ExprRules
import PackageAtlas.Proofs.Resolution.Frame
import PackageAtlas.Proofs.Resolution.Reasons
import PackageAtlas.Proofs.Resolution.Reports
import PackageAtlas.Proofs.Resolution.Signatures
import PackageAtlas.Proofs.Resolution.Steps
import PackageAtlas.Proofs.Resolution.StmtRules
import PackageAtlas.Proofs.Resolution.Tasks
import PackageAtlas.Proofs.Resolution.TypeRules
import PackageAtlas.Proofs.Spans.ExprRules
import PackageAtlas.Proofs.Spans.File
import PackageAtlas.Proofs.Spans.Package
import PackageAtlas.Proofs.Spans.Pieces
import PackageAtlas.Proofs.Spans.Reading
import PackageAtlas.Proofs.Spans.Runs
import PackageAtlas.Proofs.Spans.Steps
import PackageAtlas.Proofs.Spans.StmtRules
import PackageAtlas.Proofs.Spans.Tokens
import PackageAtlas.Proofs.Spans.Traversal
import PackageAtlas.Proofs.Spans.Visitors
import PackageAtlas.Proofs.Termination.Progress
import PackageAtlas.Proofs.Termination.Recursion
import PackageAtlas.Proofs.Termination.Rules
import PackageAtlas.Query.Error
import PackageAtlas.Query.Lookup
import PackageAtlas.Query.Navigate
import PackageAtlas.Query.Owner
import PackageAtlas.Query.Snippet
import PackageAtlas.Source.FileSet
import PackageAtlas.Source.Span
import PackageAtlas.Text.Alphanumeric
import PackageAtlas.Text.Blank
import PackageAtlas.Text.CodeRange
import PackageAtlas.Text.Letter
import PackageAtlas.Text.Number
import PackageAtlas.Text.Quoted
import PackageAtlas.Text.Shown
import PackageAtlas.Text.Split
import PackageAtlas.Text.Uppercase
import PackageAtlas.Token.Kind
import PackageAtlas.Token.Lexeme
import PackageAtlas.Token.Stream
import PackageAtlas.Tree.Basic
import PackageAtlas.Tree.Enclosing
import PackageAtlas.Tree.ExprText
import PackageAtlas.Tree.LiteralValue
import PackageAtlas.Tree.Node
import PackageAtlas.Tree.Rename
import PackageAtlas.Tree.Walk
import PackageAtlas.Types.Atlas
import PackageAtlas.Types.Basic
import PackageAtlas.Types.Dict
import PackageAtlas.Types.Relation
import PackageAtlas.Types.Symbol
import PackageAtlas.Types.Universe
