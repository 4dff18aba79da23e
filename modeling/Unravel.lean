import Unravel.Estree.Import
import Unravel.Main
import Unravel.Number.Fixed
import Unravel.Proofs.Fixpoint.Convergence
import Unravel.Proofs.Fixpoint.NormalForm
import Unravel.Proofs.Fixpoint.Repeat
import Unravel.Proofs.Fixpoint.Termination
import Unravel.Tree.Handle
import Unravel.Proofs.Grammar.Soundness
import Unravel.Proofs.Jump.Scope
import Unravel.Proofs.Jump.Carry
import Unravel.Proofs.Jump.Context
import Unravel.Proofs.Jump.Keep
import Unravel.Proofs.Jump.Tied
import Unravel.Proofs.Lexical.Keep
import Unravel.Proofs.Lexical.Breach
import Unravel.Proofs.Write.Aspect
import Unravel.Proofs.Write.Keep
import Unravel.Proofs.Write.Breach
import Unravel.Proofs.Sharing.Marks
import Unravel.Proofs.Sharing.Move
import Unravel.Proofs.Sharing.Copy
import Unravel.Proofs.Sharing.Session
import Unravel.Proofs.Coverage.Account
import Unravel.Proofs.Coverage.Seen
import Unravel.Proofs.Coverage.Pass
import Unravel.Proofs.Formula.Basic
import Unravel.Proofs.Formula.Folding
import Unravel.Proofs.Renaming.Site
import Unravel.Proofs.Renaming.Inline
import Unravel.Proofs.Renaming.Unwrap
import Unravel.Proofs.Renaming.Pass
import Unravel.Proofs.Renaming.Structure
import Unravel.Proofs.Renaming.Spelled
import Unravel.Proofs.Renaming.Exchange
import Unravel.Proofs.Renaming.Restore
import Unravel.Proofs.Fixpoint.Tally
import Unravel.Proofs.Inlining.Order
import Unravel.Proofs.Inlining.Meaning
import Unravel.Proofs.Inlining.Evaluation
import Unravel.Estree.Rebuild
import Unravel.Proofs.Exchange.Sign
import Unravel.Proofs.Exchange.Spelled
import Unravel.Proofs.Exchange.Normal
import Unravel.Proofs.Exchange.Rebuild
import Unravel.Proofs.Exchange.Import
import Unravel.Proofs.Exchange.Cover
import Unravel.Proofs.Exchange.Nesting
import Unravel.Proofs.Exchange.Dangling
import Unravel.Proofs.Exchange.Braces
import Unravel.Proofs.Number.Normal
import Unravel.Proofs.Number.Sum
import Unravel.Proofs.Hoisting.Outline
import Unravel.Proofs.Hoisting.Account
import Unravel.Proofs.Hoisting.Traversal
import Unravel.Proofs.Hoisting.Remainder
import Unravel.Proofs.Hoisting.Repeat
import Unravel.Proofs.Loop.Trips
import Unravel.Proofs.Script.Semantics
import Unravel.Proofs.Script.Keep
import Unravel.Proofs.Script.Rounds
import Unravel.Proofs.Pass.Silence
import Unravel.Proofs.Collapse.Pattern
import Unravel.Proofs.Collapse.Tree
import Unravel.Proofs.Tree.Relabel
import Unravel.Proofs.Handle.Put
import Unravel.Proofs.Handle.Workspace
import Unravel.Proofs.Handle.Fill
import Unravel.Proofs.Handle.Edit
import Unravel.Proofs.Handle.Local
import Unravel.Proofs.Handle.Route
import Unravel.Proofs.Handle.Stale
import Unravel.Proofs.Renaming.Respell
import Unravel.Proofs.Renaming.Written
import Unravel.Proofs.Renaming.Fresh
import Unravel.Proofs.Number.Decimal
import Unravel.Proofs.Number.Layout
import Unravel.Proofs.Tree.Position
import Unravel.Proofs.Tree.Traversal
import Unravel.Proofs.Jump.Exits
import Unravel.Proofs.Number.Literal
import Unravel.Proofs.Number.Reading
import Unravel.Proofs.Rule.ArrayIndex
