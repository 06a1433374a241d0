import Diagnosis.Main
import Diagnosis.Proofs.Catalogue.Requests
import Diagnosis.Proofs.Engine.Failures
import Diagnosis.Proofs.Engine.Hypotheses
import Diagnosis.Proofs.Engine.Status
import Diagnosis.Proofs.Engine.Monotonicity
import Diagnosis.Proofs.Formula.Unambiguity
import Diagnosis.Proofs.Prover.Diagnoses
import Diagnosis.Proofs.Prover.Shrinking
import Diagnosis.Proofs.Prover.Validity
import Diagnosis.Proofs.Problem.Unsupported
import Diagnosis.Proofs.Problem.Identifiers
import Diagnosis.Proofs.Problem.Reports
import Diagnosis.Proofs.Problem.Acceptance
import Diagnosis.Proofs.Problem.Premises
import Diagnosis.Proofs.Satisfiability.Closure
import Diagnosis.Proofs.Smt.Faithfulness
import Diagnosis.Prover.Scripted
