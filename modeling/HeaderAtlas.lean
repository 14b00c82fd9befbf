import HeaderAtlas.Catalog.Basic
import HeaderAtlas.Catalog.Form
import HeaderAtlas.Catalog.Stats
import HeaderAtlas.Catalog.Union
import HeaderAtlas.CommandLine.Args
import HeaderAtlas.CommandLine.Run
import HeaderAtlas.ConstExpr
import HeaderAtlas.Declaration.Braces
import HeaderAtlas.Declaration.Directive
import HeaderAtlas.Declaration.Enumerators
import HeaderAtlas.Declaration.Filter
import HeaderAtlas.Declaration.Global
import HeaderAtlas.Declaration.Reader
import HeaderAtlas.Declaration.Run
import HeaderAtlas.Declaration.Scanner
import HeaderAtlas.Declaration.Shape
import HeaderAtlas.Declaration.SpecialForm
import HeaderAtlas.Declaration.TypeSpec
import HeaderAtlas.Declaration.Typedef
import HeaderAtlas.DocBlock.Basic
import HeaderAtlas.DocBlock.FileInfo
import HeaderAtlas.Failure
import HeaderAtlas.FileTree
import HeaderAtlas.Guards
import HeaderAtlas.Journal
import HeaderAtlas.Json
import HeaderAtlas.Main
import HeaderAtlas.NameMap
import HeaderAtlas.Path
import HeaderAtlas.Place
import HeaderAtlas.Project.Survey
import HeaderAtlas.Proofs.BranchGuards
import HeaderAtlas.Proofs.Catalog.Enrichment
import HeaderAtlas.Proofs.Catalog.FirstWins
import HeaderAtlas.Proofs.Catalog.Notices
import HeaderAtlas.Proofs.Catalog.Repetition
import HeaderAtlas.Proofs.Catalog.Sightings
import HeaderAtlas.Proofs.Catalog.Unlined
import HeaderAtlas.Proofs.Catalog.Upkeep
import HeaderAtlas.Proofs.CommentOpenings
import HeaderAtlas.Proofs.DeclarationGuards
import HeaderAtlas.Proofs.DeclaratorLists
import HeaderAtlas.Proofs.DirectiveComments
import HeaderAtlas.Proofs.Directives
import HeaderAtlas.Proofs.DocBlock.Completeness
import HeaderAtlas.Proofs.DocBlock.RoundTrip
import HeaderAtlas.Proofs.DocBlock.Sections
import HeaderAtlas.Proofs.Documentation
import HeaderAtlas.Proofs.EnumeratorComments
import HeaderAtlas.Proofs.EnumeratorValues
import HeaderAtlas.Proofs.ErrorRegions
import HeaderAtlas.Proofs.ErrorSwitch
import HeaderAtlas.Proofs.Expressions.Arithmetic
import HeaderAtlas.Proofs.Expressions.BitShifts
import HeaderAtlas.Proofs.Expressions.Exactness
import HeaderAtlas.Proofs.Expressions.Grammar
import HeaderAtlas.Proofs.Expressions.Suffixes
import HeaderAtlas.Proofs.FileMetadata
import HeaderAtlas.Proofs.GuardHistory
import HeaderAtlas.Proofs.IgnoredWords
import HeaderAtlas.Proofs.LaterText
import HeaderAtlas.Proofs.Lexer.Append
import HeaderAtlas.Proofs.Lexer.Concatenation
import HeaderAtlas.Proofs.Lexer.DirectiveLines
import HeaderAtlas.Proofs.Lexer.Exhaustion
import HeaderAtlas.Proofs.Lexer.Listing
import HeaderAtlas.Proofs.Lexer.Offsets
import HeaderAtlas.Proofs.Lexer.Slicing
import HeaderAtlas.Proofs.Lexer.TokenShapes
import HeaderAtlas.Proofs.MacroParameters
import HeaderAtlas.Proofs.MacroValues
import HeaderAtlas.Proofs.NestedGuards
import HeaderAtlas.Proofs.Project.FailurePolicies
import HeaderAtlas.Proofs.Prototypes
import HeaderAtlas.Proofs.Pushback
import HeaderAtlas.Proofs.Reader.Asides
import HeaderAtlas.Proofs.Reader.Bodies
import HeaderAtlas.Proofs.Reader.Comments
import HeaderAtlas.Proofs.Reader.Declarations
import HeaderAtlas.Proofs.Reader.Departures
import HeaderAtlas.Proofs.Reader.Enumerations
import HeaderAtlas.Proofs.Reader.Enumerators
import HeaderAtlas.Proofs.Reader.Execution
import HeaderAtlas.Proofs.Reader.Files
import HeaderAtlas.Proofs.Reader.Grammar
import HeaderAtlas.Proofs.Reader.Impartial
import HeaderAtlas.Proofs.Reader.Inside
import HeaderAtlas.Proofs.Reader.Invariant
import HeaderAtlas.Proofs.Reader.Lockstep
import HeaderAtlas.Proofs.Reader.Openings
import HeaderAtlas.Proofs.Reader.Passing
import HeaderAtlas.Proofs.Reader.Progress
import HeaderAtlas.Proofs.Reader.Recursion
import HeaderAtlas.Proofs.Reader.Rounds
import HeaderAtlas.Proofs.Reader.Tokens
import HeaderAtlas.Proofs.Reader.Twins
import HeaderAtlas.Proofs.Reader.TypeTexts
import HeaderAtlas.Proofs.Reader.Types
import HeaderAtlas.Proofs.Reader.Upholding
import HeaderAtlas.Proofs.RecordedCalls
import HeaderAtlas.Proofs.Scanner.Abreast
import HeaderAtlas.Proofs.Scanner.Definitions
import HeaderAtlas.Proofs.Scanner.Findings
import HeaderAtlas.Proofs.Scanner.Follow
import HeaderAtlas.Proofs.Scanner.Heard
import HeaderAtlas.Proofs.Scanner.Intakes
import HeaderAtlas.Proofs.Scanner.Items
import HeaderAtlas.Proofs.Scanner.Kindred
import HeaderAtlas.Proofs.Scanner.Slot
import HeaderAtlas.Proofs.StructBodies
import HeaderAtlas.Proofs.Termination
import HeaderAtlas.Proofs.Text.Blanks
import HeaderAtlas.Proofs.Text.Fields
import HeaderAtlas.Proofs.Text.Slices
import HeaderAtlas.Proofs.TokenSources
import HeaderAtlas.Proofs.UsageCollection
import HeaderAtlas.Proofs.WidthPolicy
import HeaderAtlas.Settings.Basic
import HeaderAtlas.Settings.Builtin
import HeaderAtlas.Settings.Datum
import HeaderAtlas.Settings.Decode
import HeaderAtlas.Settings.Decoder
import HeaderAtlas.Symbol.Detail
import HeaderAtlas.Symbol.Entry
import HeaderAtlas.Text.Blank
import HeaderAtlas.Text.Numeral
import HeaderAtlas.Text.Printable
import HeaderAtlas.Text.Quoted
import HeaderAtlas.Text.Search
import HeaderAtlas.Text.Utf8
import HeaderAtlas.Token.Basic
import HeaderAtlas.Token.Feed
import HeaderAtlas.Token.Lexer
import HeaderAtlas.Token.Pages
import HeaderAtlas.WidthPolicy
import HeaderAtlas.Yaml.BlockScalar
import HeaderAtlas.Yaml.Cursor
import HeaderAtlas.Yaml.Document
import HeaderAtlas.Yaml.FlowScalar
import HeaderAtlas.Yaml.Lexeme
import HeaderAtlas.Yaml.Property
import HeaderAtlas.Yaml.Scalar
