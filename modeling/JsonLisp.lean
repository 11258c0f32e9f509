import JsonLisp.Main
import JsonLisp.Proofs.Evaluation.Limits
import JsonLisp.Proofs.Evaluation.Stepwise
import JsonLisp.Proofs.Evaluation.Termination
import JsonLisp.Proofs.Session.Tables
import JsonLisp.Proofs.Simulation.Basic
import JsonLisp.Proofs.Simulation.Operations
import JsonLisp.Proofs.Except
import JsonLisp.Proofs.Simulation.Primitives
import JsonLisp.Proofs.Simulation.Evaluation
import JsonLisp.Proofs.Json.Sound
import JsonLisp.Proofs.Simulation.Requests
import JsonLisp.Proofs.Evaluation.Scope
import JsonLisp.Proofs.Simulation.WellFormed
import JsonLisp.Proofs.Session.WellFormed
import JsonLisp.Proofs.Session.Failures
import JsonLisp.Proofs.Binary64.Rounding
import JsonLisp.Proofs.Binary64.Shortest
import JsonLisp.Proofs.Json.Number
import JsonLisp.Proofs.Json.Float
import JsonLisp.Proofs.Json.Strings
import JsonLisp.Proofs.Json.RoundTrip
import JsonLisp.Proofs.Value.Encoding
import JsonLisp.Proofs.Json.Grammar
import JsonLisp.Proofs.Json.Tokens
import JsonLisp.Proofs.Json.Acceptance
import JsonLisp.Proofs.Json.Extension
import JsonLisp.Proofs.Session.Consecutive
import JsonLisp.Proofs.Evaluation.FreshGlobal
import JsonLisp.Proofs.Simulation.Texts
import JsonLisp.Proofs.Simulation.Renumbering
import JsonLisp.Proofs.Session.Start
import JsonLisp.Proofs.Session.Isolation
import JsonLisp.Proofs.Pattern
import JsonLisp.Proofs.Session.SingleForm
import JsonLisp.Proofs.Session.ParallelBinding
import JsonLisp.Proofs.Session.Bootstrap
import JsonLisp.Proofs.Evaluation.Expansion
import JsonLisp.Proofs.Evaluation.Visits
import JsonLisp.Proofs.Session.Budget
import JsonLisp.Proofs.Binary64.Order
import JsonLisp.Proofs.Value.Position
import JsonLisp.Proofs.Value.Equality
import JsonLisp.Proofs.Value.Order
import JsonLisp.Proofs.Primitive.Comparison
import JsonLisp.Proofs.Primitive.Refusal
import JsonLisp.Proofs.Primitive.Arithmetic
import JsonLisp.Proofs.Primitive.Sorted
import JsonLisp.Proofs.Primitive.Causes
import JsonLisp.Proofs.Json.Lines
import JsonLisp.Proofs.Evaluation.Applications
import JsonLisp.Proofs.Simulation.Printed
import JsonLisp.Proofs.Session.Output
import JsonLisp.Proofs.Value.Sequence
import JsonLisp.Proofs.Session.Recursion
import JsonLisp.Proofs.Simulation.Calls
import JsonLisp.Proofs.Simulation.Registry
import JsonLisp.Proofs.Evaluation.Passing
import JsonLisp.Proofs.Session.Functions
import JsonLisp.Proofs.Session.Programs
import JsonLisp.Proofs.Session.Identity
