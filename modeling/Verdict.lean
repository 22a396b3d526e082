import Verdict.Main
import Verdict.Proofs.Almanac.Period
import Verdict.Proofs.Condition.Inheritance
import Verdict.Proofs.Evaluation.Alone
import Verdict.Proofs.Evaluation.Carried
import Verdict.Proofs.Evaluation.Circles
import Verdict.Proofs.Evaluation.Decision
import Verdict.Proofs.Evaluation.Lenient
import Verdict.Proofs.Operator.Grammar
import Verdict.Proofs.Operator.Registration
import Verdict.Proofs.Condition.Faults
import Verdict.Proofs.Json.Equality
import Verdict.Proofs.Operator.Algebra
import Verdict.Proofs.Condition.Metadata
import Verdict.Proofs.Evaluation.Precedence
import Verdict.Proofs.Evaluation.Attribution
import Verdict.Proofs.Json.Location
import Verdict.Proofs.Number.Written
import Verdict.Proofs.Json.Readable
import Verdict.Proofs.Almanac.Keys
import Verdict.Proofs.Json.Zeros
import Verdict.Proofs.Almanac.Sharing
import Verdict.Proofs.Operator.Consistency
import Verdict.Proofs.Condition.Priorities
import Verdict.Proofs.Evaluation.Replacement
import Verdict.Proofs.Settings.Loading
