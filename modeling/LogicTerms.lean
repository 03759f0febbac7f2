import LogicTerms.Abort
import LogicTerms.Bindings.Expansion
import LogicTerms.Bindings.Json
import LogicTerms.Error.Json
import LogicTerms.Json.Writer
import LogicTerms.Literal.Float
import LogicTerms.Proofs.Bindings.Reachable
import LogicTerms.Proofs.Term.Order
import LogicTerms.Proofs.Unification.Completeness
import LogicTerms.Proofs.Unification.Soundness
import LogicTerms.Reply.Json
import LogicTerms.Supply
import LogicTerms.Term.Order
import LogicTerms.Term.Variables
import LogicTerms.Proofs.Bindings.Solutions
import LogicTerms.Proofs.Unification.Arrangement
import LogicTerms.Proofs.Literal.CharacterCode
import LogicTerms.Proofs.Literal.Integer
import LogicTerms.Proofs.Binary64.Rounding
import LogicTerms.Proofs.Decimal.Basic
import LogicTerms.Proofs.Binary64.Decimal
import LogicTerms.Proofs.Literal.Decimal
import LogicTerms.Proofs.Literal.Fraction
import LogicTerms.Proofs.Literal.Float
import LogicTerms.Proofs.Binary64.Shortest
import LogicTerms.Proofs.Decimal.Text
import LogicTerms.Proofs.Number.Text
import LogicTerms.Proofs.Term.Token
import LogicTerms.Proofs.Term.Text
import LogicTerms.Proofs.Bindings.Expansion
import LogicTerms.Proofs.Unification.Record
import LogicTerms.Proofs.Bindings.Occurrence
import LogicTerms.Proofs.Unification.OccursCheck
import LogicTerms.Proofs.Json.Scalar
import LogicTerms.Proofs.Json.Text
import LogicTerms.Proofs.Json.Decoding
import LogicTerms.Proofs.Json.Roundtrip
import LogicTerms.Proofs.Unification.Termination
import LogicTerms.Proofs.Bindings.Refinement
import LogicTerms.Proofs.Bindings.Residue
import LogicTerms.Proofs.Unification.Repetition
import LogicTerms.Proofs.Binary64.Fields
import LogicTerms.Proofs.Number.Comparison
import LogicTerms.Proofs.Binary64.Arithmetic
import LogicTerms.Proofs.Number.Arithmetic
import LogicTerms.Proofs.Number.Reading
import LogicTerms.Proofs.Reply.Resolution
import LogicTerms.Proofs.Number.Negation
import LogicTerms.Proofs.Term.Quoting
import LogicTerms.Proofs.Unification.Trace
import LogicTerms.Proofs.Bindings.Renaming
import LogicTerms.Proofs.Unification.Renaming
import LogicTerms.Proofs.Number.Conversion
import LogicTerms.Proofs.Term.Lists
import LogicTerms.Proofs.Abort.History
import LogicTerms.Proofs.Literal.Word
import LogicTerms.Proofs.Term.Variables
