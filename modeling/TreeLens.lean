import TreeLens.Text.Quoted
import TreeLens.Text.Alphabetic
import TreeLens.Text.Numeric
import TreeLens.Text.Blank
import TreeLens.Kind.Set
import TreeLens.Layout
import TreeLens.Trivia
import TreeLens.Lexer.Trivia
import TreeLens.Lexeme
import TreeLens.Lexer.Cursor
import TreeLens.Lexer.Stream
import TreeLens.Lexer.Tokenizer
import TreeLens.Tree.Basic
import TreeLens.Tree.Builder
import TreeLens.Tree.Dump
import TreeLens.Tree.Slots
import TreeLens.Tree.Walk
import TreeLens.Diagnostic
import TreeLens.Parser.Grammar
import TreeLens.Parser.Parse
import TreeLens.Location
import TreeLens.Markup.Basic
import TreeLens.Outline
import TreeLens.Visitor
import TreeLens.Record.Statistics
import TreeLens.Json.Basic
import TreeLens.Json.Number
import TreeLens.Json.Reader
import TreeLens.Json.Decode
import TreeLens.Record.Decode
import TreeLens.Record.Encode
import TreeLens.Input
import TreeLens.Options.Decode
import TreeLens.Response
import TreeLens.Snippet
import TreeLens.SourceFile
import TreeLens.CommandLine.Arguments
import TreeLens.CommandLine.Run
import TreeLens.Main
import TreeLens.Parser.Event
import TreeLens.Parser.Machine
import TreeLens.Parser.Procedure
import TreeLens.Proofs.Conformance
import TreeLens.Proofs.Lexing
import TreeLens.Proofs.Tree
import TreeLens.Proofs.Recovery
import TreeLens.Proofs.Rule
import TreeLens.Proofs.Grammar
import TreeLens.Proofs.Lossless
import TreeLens.Proofs.Diagnostics
import TreeLens.Proofs.Folding
import TreeLens.Proofs.Building
import TreeLens.Proofs.Event
import TreeLens.Proofs.Machine
import TreeLens.Proofs.Procedure
import TreeLens.Proofs.Totality
import TreeLens.Proofs.Alternation
import TreeLens.Proofs.Replay
import TreeLens.Proofs.Unfolding
import TreeLens.Proofs.Place
import TreeLens.Proofs.Visiting
import TreeLens.Proofs.Pieces
import TreeLens.Proofs.Markup
import TreeLens.Proofs.Rendering
import TreeLens.Proofs.Numbering
import TreeLens.Proofs.Hiding
import TreeLens.Proofs.Tiling
import TreeLens.Arena.Basic
import TreeLens.Arena.Builder
import TreeLens.Arena.Flatten
import TreeLens.Proofs.Assembly
import TreeLens.Proofs.Inverse
import TreeLens.Proofs.Kinship
import TreeLens.Proofs.Span
import TreeLens.Proofs.Tables
import TreeLens.Proofs.Visible
import TreeLens.Fold.Climb
import TreeLens.Proofs.Climbing
import TreeLens.Proofs.Codec
import TreeLens.Proofs.RoundTrip
import TreeLens.Proofs.Trimming
import TreeLens.Proofs.Settling
import TreeLens.Proofs.Shape
import TreeLens.Proofs.Mirroring
import TreeLens.Proofs.Reading
import TreeLens.Proofs.Refolding
import TreeLens.Proofs.Locating
import TreeLens.Proofs.Nesting
import TreeLens.Proofs.Lookahead
import TreeLens.Proofs.Breaks
import TreeLens.Proofs.NodeLaw
import TreeLens.Proofs.Confinement
import TreeLens.Proofs.Quoting
import TreeLens.Proofs.Spelling
import TreeLens.Proofs.Trivia
import TreeLens.Proofs.Touring
import TreeLens.Proofs.Grouping
import TreeLens.Proofs.Escaping
import TreeLens.Proofs.Slotting
