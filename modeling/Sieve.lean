import Sieve.Binary64.Basic
import Sieve.Binary64.Numeral
import Sieve.Binary64.Shortest
import Sieve.Command.Action
import Sieve.Command.Basic
import Sieve.Command.Context
import Sieve.Command.Failure
import Sieve.Command.Level
import Sieve.Command.Line
import Sieve.Command.Respond
import Sieve.Command.Run
import Sieve.Command.Usage
import Sieve.Criteria
import Sieve.Filter.Basic
import Sieve.Filter.Build
import Sieve.Filter.Clause
import Sieve.Filter.Error
import Sieve.Filter.Read
import Sieve.Json.Basic
import Sieve.Json.Criteria
import Sieve.Json.Printer
import Sieve.Keyword
import Sieve.Keyword.Capital
import Sieve.Literal.Cast
import Sieve.Literal.Scalar
import Sieve.Literal.Timestamp
import Sieve.Literal.Uuid
import Sieve.Operator
import Sieve.Postfix
import Sieve.Proofs.Binding
import Sieve.Proofs.Expression
import Sieve.Proofs.Precedence
import Sieve.Report.Clause
import Sieve.Report.Log
import Sieve.Report.Style
import Sieve.Report.Tokens
import Sieve.Report.Tree
import Sieve.Settings.Basic
import Sieve.Settings.Error
import Sieve.Settings.File
import Sieve.Settings.Path
import Sieve.Settings.Site
import Sieve.Sort
import Sieve.Text.Basic
import Sieve.Text.Blank
import Sieve.Text.Quoted
import Sieve.Token
import Sieve.Token.Lexer
import Sieve.Toml.Basic
import Sieve.Toml.Document
import Sieve.Toml.Lexical
import Sieve.Toml.Value
import Sieve.Main
import Sieve.Proofs.Fragment
import Sieve.Proofs.Capitals
import Sieve.Proofs.Lexeme
import Sieve.Proofs.Recasing
import Sieve.Proofs.QuotedWord
import Sieve.Proofs.WellQuoted
import Sieve.Proofs.Reordering
import Sieve.Proofs.Provenance
import Sieve.Proofs.Front
import Sieve.Proofs.Grammar
import Sieve.Proofs.RoundTrip
import Sieve.Proofs.ListSpacing
import Sieve.Proofs.ListItems
import Sieve.Proofs.ListQuotes
import Sieve.Proofs.Composition
import Sieve.Proofs.WellFormed
import Sieve.Proofs.Print
import Sieve.Proofs.Template
import Sieve.Proofs.Actions
import Sieve.Proofs.Session
import Sieve.Proofs.Strictness
import Sieve.Proofs.PageSize
import Sieve.Proofs.Escaping
import Sieve.Proofs.Pruning
import Sieve.Proofs.NullTest
import Sieve.Proofs.Partners
import Sieve.Proofs.Coverage
import Sieve.Proofs.Matching
import Sieve.Proofs.Lookahead
import Sieve.Proofs.Reprint
import Sieve.Proofs.Locality
import Sieve.Proofs.Culprit
import Sieve.Proofs.Preparation
import Sieve.Proofs.SortSpec
import Sieve.Proofs.Characters
import Sieve.Proofs.Colours
import Sieve.Proofs.Drawing
import Sieve.Proofs.Setters
import Sieve.Proofs.ShownLiteral
import Sieve.Proofs.ListCuts
