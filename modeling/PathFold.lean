import PathFold.Bytes
import PathFold.Decimal.Binary64
import PathFold.Decimal.Text
import PathFold.Error
import PathFold.Except
import PathFold.Json.Container
import PathFold.Json.Cursor
import PathFold.Json.Escape
import PathFold.Json.Extent
import PathFold.Json.Fault
import PathFold.Json.Gap
import PathFold.Json.Numeral
import PathFold.Json.Quotation
import PathFold.Json.Scalar
import PathFold.Json.Token
import PathFold.Json.Tokenizer
import PathFold.Json.Tokenizer.Cases
import PathFold.Json.Tokenizer.Progress
import PathFold.Json.Tokenizer.Run
import PathFold.Memory
import PathFold.Path.Frame
import PathFold.Path.Stack
import PathFold.Path.Symbol
import PathFold.Path.View
import PathFold.Proofs.Acceptance
import PathFold.Proofs.Decimal.Integers
import PathFold.Proofs.Grammar.Cut
import PathFold.Proofs.Grammar.Document
import PathFold.Proofs.Grammar.Escape
import PathFold.Proofs.Grammar.Gap
import PathFold.Proofs.Grammar.Lexeme
import PathFold.Proofs.Grammar.Numeral
import PathFold.Proofs.Grammar.Quotation
import PathFold.Proofs.Grammar.Stop
import PathFold.Proofs.Layout.Basic
import PathFold.Proofs.Layout.Call
import PathFold.Proofs.Layout.Cut
import PathFold.Proofs.Layout.Faults
import PathFold.Proofs.Layout.Growth
import PathFold.Proofs.Layout.Pieces
import PathFold.Proofs.Layout.Reading
import PathFold.Proofs.Layout.Run
import PathFold.Proofs.Layout.Trail
import PathFold.Proofs.Layout.Tree
import PathFold.Proofs.Path.History
import PathFold.Proofs.Path.Recording
import PathFold.Proofs.Reduction.Batch
import PathFold.Proofs.Reduction.DepthLimit
import PathFold.Proofs.Reduction.Document
import PathFold.Proofs.Reduction.Events
import PathFold.Proofs.Reduction.Leniency
import PathFold.Proofs.Reduction.Lexemes
import PathFold.Proofs.Reduction.Respacing
import PathFold.Proofs.Reduction.Termination
import PathFold.Proofs.Reduction.TreeFold
import PathFold.Proofs.Reduction.Truncation
import PathFold.Proofs.Reduction.Verdict
import PathFold.Proofs.Rule.Compiling
import PathFold.Proofs.Rule.Describing
import PathFold.Proofs.Rule.Filing
import PathFold.Proofs.Rule.Firing
import PathFold.Proofs.Rule.Insertion
import PathFold.Proofs.Rule.Loop
import PathFold.Proofs.Rule.Matching
import PathFold.Proofs.Rule.Naming
import PathFold.Proofs.Rule.Seen
import PathFold.Proofs.Rule.Waiting
import PathFold.Proofs.Safety.Calls
import PathFold.Proofs.Safety.Lexemes
import PathFold.Proofs.Safety.Steps
import PathFold.Proofs.Safety.Tokens
import PathFold.Proofs.Strings.Comparison
import PathFold.Proofs.Strings.Decoding
import PathFold.Proofs.Strings.Denotation
import PathFold.Proofs.Strings.Spelling
import PathFold.Proofs.Strings.Utf8
import PathFold.Proofs.Tokens.Coherence
import PathFold.Proofs.Tokens.Completion
import PathFold.Proofs.Tokens.Extension
import PathFold.Proofs.Tokens.Numbers
import PathFold.Proofs.Tokens.Spans
import PathFold.Proofs.Tokens.Strings
import PathFold.Proofs.Walk.Invalidation
import PathFold.Proofs.Walk.Moves
import PathFold.Reducer.Basic
import PathFold.Reducer.Batch
import PathFold.Reducer.Builder
import PathFold.Reducer.Config
import PathFold.Reducer.Schedule
import PathFold.Reducer.Walk
import PathFold.Rule.Basic
import PathFold.Rule.Compiled
import PathFold.Rule.Dispatch
import PathFold.Rule.Pattern
import PathFold.Text.CodeRanges
import PathFold.Text.Extending
import PathFold.Text.Invisible
import PathFold.Text.Listing
import PathFold.Text.Quoted
import PathFold.Text.Unassigned
