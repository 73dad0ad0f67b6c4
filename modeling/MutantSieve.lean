import MutantSieve.Feature.SettingText
import MutantSieve.Filter.ReturnEquivalence
import MutantSieve.Json.Feature
import MutantSieve.Json.Mutation
import MutantSieve.Proofs.Bytecode.WellFormedDescriptor
import MutantSieve.Proofs.Feature.FaultPosition
import MutantSieve.Proofs.Feature.Selection
import MutantSieve.Proofs.Feature.StepwiseAgreement
import MutantSieve.Proofs.Filter.Accounting
import MutantSieve.Proofs.Filter.Session
import MutantSieve.Proofs.Json.Settling
import MutantSieve.Proofs.Pattern.AbstractRun
import MutantSieve.Proofs.Pattern.Closure
import MutantSieve.Proofs.Pattern.ExactUsage
import MutantSieve.Proofs.Pattern.IgnoredTokens
import MutantSieve.Proofs.Pattern.Isolation
import MutantSieve.Proofs.Pattern.PredicateLaws
import MutantSieve.Proofs.Pattern.Rewriting
import MutantSieve.Proofs.Pattern.SameBindings
import MutantSieve.Proofs.Pattern.ScanAgreement
import MutantSieve.Proofs.Pattern.SlotSafety
import MutantSieve.Proofs.Rule.Decision
import MutantSieve.Proofs.Rule.Exclusive
import MutantSieve.Proofs.Rule.Locality
import MutantSieve.Proofs.Text.Message
