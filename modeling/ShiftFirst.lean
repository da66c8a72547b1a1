import ShiftFirst.Main
import ShiftFirst.Proofs.Automaton.Worklist
import ShiftFirst.Proofs.CommandLine.Input
import ShiftFirst.Proofs.CommandLine.Lenient
import ShiftFirst.Proofs.CommandLine.Strict
import ShiftFirst.Proofs.CommandLine.Tracing
import ShiftFirst.Proofs.Formula.Arithmetic
import ShiftFirst.Proofs.Formula.Blank
import ShiftFirst.Proofs.Formula.Compound
import ShiftFirst.Proofs.Formula.Display
import ShiftFirst.Proofs.Formula.Literal
import ShiftFirst.Proofs.Formula.Padding
import ShiftFirst.Proofs.Formula.Safety
import ShiftFirst.Proofs.Formula.Table
import ShiftFirst.Proofs.Formula.Truth
import ShiftFirst.Proofs.Grammar.Layout
import ShiftFirst.Proofs.Grammar.LeastClosure
import ShiftFirst.Proofs.Lexer.Acceptance
import ShiftFirst.Proofs.Lexer.Locating
import ShiftFirst.Proofs.Lexer.Selection
import ShiftFirst.Proofs.Parser.Enlarge
import ShiftFirst.Proofs.Parser.Loop
import ShiftFirst.Proofs.Parser.Rename
import ShiftFirst.Proofs.Parser.Reorder
import ShiftFirst.Proofs.Parser.Requests
import ShiftFirst.Proofs.Parser.Subjects
import ShiftFirst.Proofs.Parser.Termination
import ShiftFirst.Proofs.Symbol.Tables
import ShiftFirst.Proofs.Trace.Delivery
import ShiftFirst.Proofs.Trace.Ledger
import ShiftFirst.Proofs.Trace.Recorder
import ShiftFirst.Proofs.Trace.Replacement
import ShiftFirst.Trace.Exchange
