import Lox.Main
import Lox.Proofs.CommandLine.Listing
import Lox.Proofs.Diagnostic.ShownLine
import Lox.Proofs.Evaluation.Completion
import Lox.Proofs.Evaluation.ForLoop
import Lox.Proofs.Evaluation.Signal
import Lox.Proofs.Grammar.FirstError
import Lox.Proofs.Grammar.Isolation
import Lox.Proofs.Grammar.Layout
import Lox.Proofs.Grammar.LoneExpression
import Lox.Proofs.Grammar.PrintedPrograms
import Lox.Proofs.Grammar.TopLevelReturns
import Lox.Proofs.Number.Reformatting
import Lox.Proofs.Session.CallLimit
import Lox.Proofs.Session.Composition
import Lox.Proofs.Session.DebugMode
import Lox.Proofs.Session.GlobalNames
import Lox.Proofs.Session.LexicalScope
import Lox.Proofs.Session.Phases
import Lox.Proofs.Store.Forest
