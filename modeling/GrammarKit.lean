import GrammarKit.Text.Alphanumeric
import GrammarKit.Text.Lowercase
import GrammarKit.Text.Record
import GrammarKit.Position
import GrammarKit.Kind
import GrammarKit.KindSet
import GrammarKit.Number.Binary64
import GrammarKit.Json.Reader
import GrammarKit.Token
import GrammarKit.Diagnostic
import GrammarKit.Literal
import GrammarKit.Options.Decode
import GrammarKit.Automaton.Run
import GrammarKit.Automaton.Builder
import GrammarKit.Automaton.Condition
import GrammarKit.Lexer.Tokens
import GrammarKit.Pattern.Reader
import GrammarKit.Lexer.Declaration
import GrammarKit.Grammar.Flat
import GrammarKit.Grammar.Precedence
import GrammarKit.Grammar.Diagnosis
import GrammarKit.SyntaxTree.Normal
import GrammarKit.Matching
import GrammarKit.Reduction.Action
import GrammarKit.Parser.Build
import GrammarKit.Document.Parsing
import GrammarKit.Proofs.Grammar.Lookup
import GrammarKit.Proofs.Grammar.Acyclic
import GrammarKit.Proofs.Grammar.Analysis
import GrammarKit.Proofs.Grammar.Follow
import GrammarKit.Proofs.Matching.Completeness
import GrammarKit.Proofs.Matching.Exhaustive
import GrammarKit.Proofs.Grammar.Names
import GrammarKit.Proofs.Grammar.Flattening
import GrammarKit.Proofs.Grammar.FlatLanguage
import GrammarKit.Proofs.Grammar.Layers
import GrammarKit.Proofs.Grammar.Layering
import GrammarKit.Proofs.Parser.Built
import GrammarKit.Proofs.SyntaxTree.Rotation
import GrammarKit.Proofs.SyntaxTree.Normal
import GrammarKit.Proofs.SyntaxTree.Grouping
import GrammarKit.Proofs.SyntaxTree.Binding
import GrammarKit.Proofs.SyntaxTree.Shape
import GrammarKit.Proofs.SyntaxTree.Taken
import GrammarKit.Proofs.Reduction.Visit
import GrammarKit.Proofs.RuleText.Reading
import GrammarKit.Proofs.RuleText.Written
import GrammarKit.Proofs.Parser.Arguments
import GrammarKit.Proofs.Parser.Cleanup
import GrammarKit.Proofs.Parser.Operators
import GrammarKit.Proofs.Grammar.Chain
import GrammarKit.Proofs.Matching.Chain
import GrammarKit.Proofs.SyntaxTree.Chain
import GrammarKit.Proofs.Matching.Attempts
import GrammarKit.Proofs.Matching.Overlooked
import GrammarKit.Proofs.Matching.Furthest
import GrammarKit.Proofs.Grammar.Leading
import GrammarKit.Proofs.Grammar.Rewriting
import GrammarKit.Proofs.Matching.Expected
import GrammarKit.Proofs.Matching.Acceptable
import GrammarKit.Proofs.Automaton.Reading
import GrammarKit.Proofs.Automaton.Drawing
import GrammarKit.Proofs.Lexer.Declared
import GrammarKit.Proofs.Lexer.Branches
import GrammarKit.Proofs.Lexer.Edges
import GrammarKit.Proofs.Lexer.Layout
import GrammarKit.Proofs.Lexer.Steps
import GrammarKit.Proofs.Lexer.Lexeme
import GrammarKit.Proofs.Lexer.Upheld
import GrammarKit.Proofs.Lexer.Read
import GrammarKit.Proofs.Lexer.Munch
import GrammarKit.Proofs.Lexer.Scan
import GrammarKit.Proofs.Lexer.Covering
import GrammarKit.Proofs.Lexer.Alone
import GrammarKit.Proofs.Lexer.Literals
import GrammarKit.Proofs.Lexer.Characters
import GrammarKit.Proofs.Lexer.Numbers
import GrammarKit.Proofs.Lexer.Partition
import GrammarKit.Proofs.Lexer.Spacing
import GrammarKit.Proofs.Lexer.EndPosition
import GrammarKit.Proofs.Matching.Reordering
import GrammarKit.Proofs.RuleText.Describing
import GrammarKit.Proofs.Parser.Generated
import GrammarKit.Proofs.Grammar.Repeated
import GrammarKit.Proofs.SyntaxTree.Items
import GrammarKit.Proofs.Reduction.Items
import GrammarKit.Proofs.Parser.Items
import GrammarKit.Proofs.Automaton.WellFormed
import GrammarKit.Proofs.Lexer.Assembled
import GrammarKit.Proofs.Parser.Discarding
import GrammarKit.Proofs.Reduction.Recorded
import GrammarKit.Proofs.Automaton.Embedding
import GrammarKit.Proofs.Lexer.Enlarged
import GrammarKit.Proofs.Lexer.Reported
import GrammarKit.Proofs.Grammar.Recursion
import GrammarKit.Proofs.Automaton.Longest
import GrammarKit.Proofs.Lexer.Failing
import GrammarKit.Proofs.Grammar.Mentions
import GrammarKit.Proofs.Parser.Unused
import GrammarKit.Proofs.Lexer.Kinds
import GrammarKit.Proofs.Parser.Faultless
