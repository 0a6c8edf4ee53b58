import MonkeyLang.Main
import MonkeyLang.Parser.EndOfInput
import MonkeyLang.Value.Equality
import MonkeyLang.Proofs.Grammar
import MonkeyLang.Proofs.Parser.Precedence
import MonkeyLang.Proofs.Parser.Completeness
import MonkeyLang.Proofs.Parser.History
import MonkeyLang.Proofs.Parser.Soundness
import MonkeyLang.Proofs.Token.Written
import MonkeyLang.Proofs.Decimal
import MonkeyLang.Proofs.Token.Legible
import MonkeyLang.Proofs.Token.Layout
import MonkeyLang.Proofs.Source
import MonkeyLang.Proofs.RoundTrip
import MonkeyLang.Proofs.OrderedMap
import MonkeyLang.Proofs.Eval.Composition
import MonkeyLang.Proofs.Eval.Truncation
import MonkeyLang.Proofs.Eval.Frame
import MonkeyLang.Proofs.Parser.Depth
import MonkeyLang.Proofs.Recovery
import MonkeyLang.Proofs.Recovery.Nesting
import MonkeyLang.Proofs.Ending
import MonkeyLang.Proofs.Canonical
import MonkeyLang.Proofs.Token.Separation
import MonkeyLang.Proofs.Concatenation
import MonkeyLang.Proofs.Heap.Contents
import MonkeyLang.Proofs.Eval.Cleanness
import MonkeyLang.Proofs.Parser.Following
import MonkeyLang.Proofs.Parser.Agreement
import MonkeyLang.Proofs.Parser.Progress
import MonkeyLang.Proofs.Parser.Viability
import MonkeyLang.Proofs.Eval.Return
import MonkeyLang.Proofs.Token.Munch
import MonkeyLang.Proofs.Expr.Occurrence
import MonkeyLang.Proofs.Eval.NamedTracking
import MonkeyLang.Proofs.Heap.Growth
import MonkeyLang.Proofs.Eval.Retention
import MonkeyLang.Proofs.Datum
import MonkeyLang.Proofs.Datum.Text
import MonkeyLang.Proofs.Datum.Equality
import MonkeyLang.Proofs.Datum.Copy
import MonkeyLang.Proofs.Eval.Staging
import MonkeyLang.Proofs.Heap.History
import MonkeyLang.Proofs.Eval.Chronicle
import MonkeyLang.Proofs.Heap.Attribution
import MonkeyLang.Proofs.Eval.Record
import MonkeyLang.Proofs.Eval.Attribution
import MonkeyLang.Proofs.Eval.Shadowing
import MonkeyLang.Proofs.Eval.Filing
import MonkeyLang.Proofs.Heap.Foundation
import MonkeyLang.Proofs.Heap.Cycles
import MonkeyLang.Proofs.Eval.Indifference
import MonkeyLang.Proofs.Value.Sketch
import MonkeyLang.Proofs.Value.Marking
import MonkeyLang.Proofs.Value.Unfolding
import MonkeyLang.Proofs.Builtin.Arrays
import MonkeyLang.Proofs.Eval.Arithmetic
import MonkeyLang.Proofs.Heap.Scoping
import MonkeyLang.Proofs.Eval.Depth
import MonkeyLang.Proofs.Eval.Termination
import MonkeyLang.Proofs.Eval.Construction
import MonkeyLang.Proofs.Eval.Sequencing
