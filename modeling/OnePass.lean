import OnePass.Lexeme
import OnePass.Machine.Cells
import OnePass.Machine.Height
import OnePass.Machine.Slots
import OnePass.Main
import OnePass.Pass.Action
import OnePass.Pass.Lookup
import OnePass.Table
import OnePass.Program.Code
import OnePass.Program.Deferral
import OnePass.Program.Evaluation
import OnePass.Program.Grammar
import OnePass.Program.Names
import OnePass.Program.Occurrences
import OnePass.Program.Renaming
import OnePass.Program.Replacement
import OnePass.Program.Writing
import OnePass.Reader
import OnePass.Proofs.Pass.Steps
import OnePass.Proofs.Pass.Soundness
import OnePass.Proofs.Program.Knowledge
import OnePass.Proofs.Program.Unambiguous
import OnePass.Proofs.Pass.Completeness
import OnePass.Proofs.Program.NameRules
import OnePass.Proofs.Pass.Acceptance
import OnePass.Proofs.Machine.Operands
import OnePass.Proofs.Machine.Simulation
import OnePass.Proofs.Machine.Cells
import OnePass.Proofs.Machine.FirstStore
import OnePass.Proofs.Machine.Slots
import OnePass.Proofs.Text.Places
import OnePass.Proofs.Token.Lexing
import OnePass.Proofs.Token.Layouts
import OnePass.Proofs.Token.Literals
import OnePass.Proofs.Program.Kinds
import OnePass.Proofs.Pass.Occurrences
import OnePass.Proofs.Pass.Agreement
import OnePass.Proofs.Pass.Settled
import OnePass.Proofs.Pass.Failing
import OnePass.Proofs.Pass.Viable
import OnePass.Proofs.Pass.Locality
import OnePass.Proofs.Program.Scopes
import OnePass.Proofs.Pass.Effects
import OnePass.Proofs.Pass.FrontEnds
import OnePass.Proofs.Pass.Modes
import OnePass.Proofs.Pass.Heights
import OnePass.Proofs.Program.Numbers
import OnePass.Proofs.Program.Replacement
import OnePass.Proofs.Program.Deferral
import OnePass.Proofs.Token.Spellings
import OnePass.Proofs.Pass.Deferral
import OnePass.Proofs.Pass.Correspondence
import OnePass.Proofs.Pass.Renaming
import OnePass.Proofs.Text.Lines
import OnePass.Proofs.Pass.Reports
import OnePass.Proofs.Pass.Causes
import OnePass.Proofs.Pass.Constants
import OnePass.Proofs.Pass.Emitted
import OnePass.Proofs.Pass.Limits
import OnePass.Proofs.Program.Table
import OnePass.Proofs.Pass.Lookahead
import OnePass.Proofs.Pass.Semicolons
import OnePass.Proofs.Pass.Variables
import OnePass.Proofs.Pass.Growth
import OnePass.Proofs.Token.Neighbours
import OnePass.Proofs.Token.Concatenation
import OnePass.Proofs.Token.Resumption
import OnePass.Proofs.Pass.Writings
import OnePass.Proofs.Machine.Expressions
import OnePass.Proofs.Text.Reader
import OnePass.Listing
import OnePass.Proofs.Token.Listings
import OnePass.Proofs.Pass.Pulls
import OnePass.Proofs.Pass.Progress
import OnePass.Proofs.Pass.Logging
import OnePass.Text.LineEnd
import OnePass.Proofs.SavedFiles
import OnePass.Text.NumeralForm
import OnePass.Text.Lowercase
import OnePass.Proofs.Text.Numerals
import OnePass.Proofs.Text.Lowercase
import OnePass.Proofs.Environment
import OnePass.Proofs.CommandLine
