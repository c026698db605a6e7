import MathTemplate.Algebra.Arithmetic
import MathTemplate.Algebra.Calculator
import MathTemplate.Algebra.Evaluation
import MathTemplate.Algebra.Expr
import MathTemplate.Algebra.Fault
import MathTemplate.Algebra.Latex
import MathTemplate.Algebra.Logic
import MathTemplate.Algebra.Parser
import MathTemplate.Algebra.Printer
import MathTemplate.Algebra.Sequence
import MathTemplate.Algebra.Token
import MathTemplate.Check.Assignment
import MathTemplate.Check.Brackets
import MathTemplate.Check.Issue
import MathTemplate.Check.Stars
import MathTemplate.Check.Words
import MathTemplate.CommandLine.Arguments
import MathTemplate.CommandLine.Run
import MathTemplate.Data
import MathTemplate.Decimal.Notation
import MathTemplate.Decimal.Shortest
import MathTemplate.Diagnostic.Message
import MathTemplate.Diagnostic.Problem
import MathTemplate.Diagnostic.Report
import MathTemplate.Digest.Sha256
import MathTemplate.ExpandOptions
import MathTemplate.Expansion
import MathTemplate.Expansion.Data
import MathTemplate.FactSheet
import MathTemplate.Main
import MathTemplate.Plot
import MathTemplate.Proofs.Simplification.Soundness
import MathTemplate.Proofs.Simplification.Value
import MathTemplate.RenderOptions
import MathTemplate.Session
import MathTemplate.Settings.Decode
import MathTemplate.Settings.Load
import MathTemplate.Settings.Scalar
import MathTemplate.Settings.Toml
import MathTemplate.Template.Attribute
import MathTemplate.Template.Compile
import MathTemplate.Template.Fault
import MathTemplate.Template.Node
import MathTemplate.Template.Piece
import MathTemplate.Template.Pieces
import MathTemplate.Template.Reader
import MathTemplate.Template.Region
import MathTemplate.Text.Alphabetic
import MathTemplate.Text.Blank
import MathTemplate.Text.Distinct
import MathTemplate.Text.Join
import MathTemplate.Text.Line
import MathTemplate.Text.Numeric
import MathTemplate.Text.Place
import MathTemplate.Text.Quoted
import MathTemplate.Text.Ranges
import MathTemplate.Text.Replace
import MathTemplate.Text.Sort
import MathTemplate.Text.Start
import MathTemplate.Value
import MathTemplate.Proofs.Expansion.Gate
import MathTemplate.Proofs.Text.Trim
import MathTemplate.Proofs.Reading.Lexing
import MathTemplate.Proofs.Reading.Written
import MathTemplate.Proofs.Reading.Readers
import MathTemplate.Proofs.Reading.Reread
import MathTemplate.Proofs.Reading.Parsing
import MathTemplate.Proofs.Reading.Meaning
import MathTemplate.Proofs.Reading.Bound
import MathTemplate.Proofs.Reading.Results
import MathTemplate.Proofs.Simplification.Exactness
import MathTemplate.Proofs.Reading.Exactness
import MathTemplate.Proofs.Check.Identifiers
import MathTemplate.Proofs.Check.WholeWords
import MathTemplate.Proofs.Expansion.Steps
import MathTemplate.Proofs.Expansion.Keys
import MathTemplate.Proofs.Expansion.Loops
import MathTemplate.Proofs.Expansion.FailClosed
import MathTemplate.Proofs.Reading.Blanks
import MathTemplate.Proofs.Reading.Symbols
import MathTemplate.Proofs.Expansion.Elements
import MathTemplate.Proofs.Session.History
import MathTemplate.Proofs.Session.FreshKeys
import MathTemplate.Proofs.Session.Scopes
import MathTemplate.Proofs.Expansion.Display
import MathTemplate.Proofs.Text.Slice
import MathTemplate.Proofs.Template.Tags
import MathTemplate.Proofs.Template.Cover
import MathTemplate.Proofs.Template.Names
import MathTemplate.Proofs.Reading.Spelling
import MathTemplate.Proofs.Check.Indices
import MathTemplate.Proofs.Check.Targets
import MathTemplate.Proofs.Check.Uses
import MathTemplate.Proofs.Expansion.Words
import MathTemplate.Proofs.Simplification.Sets
import MathTemplate.Proofs.Simplification.Reduced
import MathTemplate.Proofs.Simplification.Operations
import MathTemplate.Proofs.Simplification.Products
import MathTemplate.Proofs.Simplification.NormalForm
import MathTemplate.Proofs.Template.Growth
import MathTemplate.Proofs.Template.Markers
import MathTemplate.Proofs.Template.Fences
import MathTemplate.Proofs.Template.Regions
import MathTemplate.Proofs.Template.Attributes
import MathTemplate.Proofs.Text.Arguments
import MathTemplate.Proofs.Reading.Outlines
import MathTemplate.Proofs.Plot.AltText
import MathTemplate.Proofs.Plot.Calls
import MathTemplate.Proofs.Doubles.Whole
import MathTemplate.Proofs.Doubles.Order
import MathTemplate.Proofs.Simplification.Duplicates
import MathTemplate.Proofs.Check.Statements
import MathTemplate.Proofs.Check.MissingStars
import MathTemplate.Proofs.Reading.Precedence
import MathTemplate.Proofs.Evaluation.Deciding
import MathTemplate.Proofs.Evaluation.Substitution
import MathTemplate.Proofs.Evaluation.Matrices
import MathTemplate.Proofs.Evaluation.ElementAssignment
import MathTemplate.Proofs.Reading.Assignments
import MathTemplate.Proofs.Template.Embedding
import MathTemplate.Proofs.Display.Nesting
import MathTemplate.Proofs.Text.Places
import MathTemplate.Proofs.Text.Order
import MathTemplate.Proofs.Template.Locations
import MathTemplate.Proofs.Template.Quotes
import MathTemplate.Proofs.Plot.Attribute
import MathTemplate.Proofs.Simplification.Sums
import MathTemplate.Proofs.Simplification.WholeNumbers
