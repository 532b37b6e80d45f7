import EpsilonAutomata.Assembly.Lemmas
import EpsilonAutomata.Assembly.History
import EpsilonAutomata.Combination
import EpsilonAutomata.Draft.InPlace
import EpsilonAutomata.Draft.Failures
import EpsilonAutomata.Draft.Lemmas
import EpsilonAutomata.EdgeList
import EpsilonAutomata.EdgeTable
import EpsilonAutomata.JsonForm
import EpsilonAutomata.Path
import EpsilonAutomata.Reachability
import EpsilonAutomata.Session
import EpsilonAutomata.Simulator.ClosureTable
import EpsilonAutomata.Simulator.Trace
import EpsilonAutomata.Json.RoundTrip
import EpsilonAutomata.Proofs.Simulation
import EpsilonAutomata.Proofs.ClosureTable
import EpsilonAutomata.Proofs.Closure
import EpsilonAutomata.Proofs.Language
import EpsilonAutomata.Proofs.Language.Copy
import EpsilonAutomata.Proofs.Combination.Layout
import EpsilonAutomata.Proofs.Combination.Union
import EpsilonAutomata.Proofs.Combination.Concatenation
import EpsilonAutomata.Proofs.Combination.Iteration
import EpsilonAutomata.Proofs.Loading
import EpsilonAutomata.Proofs.Serialization
import EpsilonAutomata.Proofs.Validation
import EpsilonAutomata.Proofs.Invariant.Consistency
import EpsilonAutomata.Proofs.Invariant.Combination
import EpsilonAutomata.Proofs.Invariant.Draft
import EpsilonAutomata.Proofs.InPlace
import EpsilonAutomata.Proofs.Refusal
import EpsilonAutomata.Proofs.Invariant.Session
import EpsilonAutomata.Proofs.Trace
import EpsilonAutomata.Proofs.Relabelling
import EpsilonAutomata.Proofs.Combination.Blueprint
import EpsilonAutomata.Proofs.Combination.Derived
import EpsilonAutomata.Proofs.Reachability
import EpsilonAutomata.Proofs.Trimming
import EpsilonAutomata.Proofs.Isomorphism
import EpsilonAutomata.Proofs.Renumbering
import EpsilonAutomata.Proofs.Renaming
import EpsilonAutomata.Proofs.Additions
import EpsilonAutomata.Proofs.Extension
import EpsilonAutomata.Proofs.Allocation
import EpsilonAutomata.Proofs.Alphabet
import EpsilonAutomata.Proofs.Chain
import EpsilonAutomata.Proofs.EdgeList
import EpsilonAutomata.Proofs.Blocks
import EpsilonAutomata.Proofs.Offer
