import EpsilonAutomata.Proofs.Invariant.Combination
import EpsilonAutomata.Proofs.Reachability

/-!
What trimming keeps.

Only the sources of the edges decide which edges stay, and the targets are taken over as they are.
They are reachable nonetheless, since reachability follows every edge. For the same reason a path
that starts at a reachable state is a path of the trimmed automaton, label by label
(`Automaton.path_trimmed_iff`): whatever is said in terms of such paths is the same for both, the
reachable states of the trimmed automaton included.
-/

namespace EpsilonAutomata

namespace Automaton

/-- The other automaton is the reachable part of the first one: it consists of the reachable states
and of all that belongs to them, it behaves as the first one does from each of them, and it has no
unreachable states of its own. -/
structure IsReachablePart (part automaton : Automaton) : Prop where
  wellFormed : part.WellFormed
  states : part.states = automaton.reachable
  alphabet : part.alphabet = automaton.alphabet
  initial : part.initial = automaton.initial
  accepting : ∀ state,
    state ∈ part.accepting ↔ state ∈ automaton.accepting ∧ state ∈ automaton.reachable
  edges : ∀ edge : Edge,
    edge ∈ part.transitions ↔ edge ∈ automaton.transitions ∧ edge.source ∈ automaton.reachable
  target_mem : ∀ edge ∈ automaton.transitions, edge.source ∈ automaton.reachable →
    edge.target ∈ part.states
  extended : ∀ states : StateSet, (∀ state ∈ states, state ∈ automaton.reachable) → ∀ word,
    part.simulator.extended states word = automaton.simulator.extended states word
  acceptsFrom : ∀ state ∈ automaton.reachable, ∀ word,
    part.simulator.acceptsFrom state word = automaton.simulator.acceptsFrom state word
  accepts : ∀ word, part.accepts word = automaton.accepts word
  unreachable : part.unreachable = ∅

variable {automaton : Automaton} {source target state : StateId} {symbols : List Symbol}
  {word : Word}

/-! ## Paths from reachable states -/

theorem mem_reachable_of_path (path : Path automaton.transitions source symbols target)
    (reachable : source ∈ automaton.reachable) : target ∈ automaton.reachable := by
  induction path with
  | nil => exact reachable
  | cons edge _ induction => exact induction (target_mem_reachable edge reachable)

theorem path_trimmed_iff (reachable : source ∈ automaton.reachable) :
    Path automaton.trimmed.transitions source symbols target ↔
      Path automaton.transitions source symbols target := by
  constructor
  · exact .mono fun edge kept => (Transitions.mem_restrictSources.mp kept).1
  · intro path
    induction path with
    | nil state => exact .nil state
    | cons edge _ induction =>
        have kept := Transitions.mem_restrictSources.mpr ⟨edge, reachable⟩
        exact .cons kept (induction (target_mem_reachable edge reachable))

theorem reads_trimmed_iff (reachable : source ∈ automaton.reachable) :
    automaton.trimmed.Reads source word target ↔ automaton.Reads source word target :=
  exists_congr fun _ => and_congr_left' (path_trimmed_iff reachable)

theorem mem_reachable_of_reads (reads : automaton.Reads source word target)
    (reachable : source ∈ automaton.reachable) : target ∈ automaton.reachable := by
  rcases reads with ⟨_, path, _⟩
  exact mem_reachable_of_path path reachable

/-! ## Runs of both automata -/

theorem extended_trimmed {states : StateSet}
    (reachable : ∀ state ∈ states, state ∈ automaton.reachable) (word : Word) :
    automaton.trimmed.simulator.extended states word =
      automaton.simulator.extended states word := by
  apply StateSet.ext
  intro target
  rw [mem_extended_iff, mem_extended_iff]
  exact exists_congr fun source => and_congr_right fun member =>
    reads_trimmed_iff (reachable source member)

theorem acceptsFrom_trimmed (reachable : state ∈ automaton.reachable) (word : Word) :
    automaton.trimmed.simulator.acceptsFrom state word =
      automaton.simulator.acceptsFrom state word := by
  rw [Bool.eq_iff_iff, acceptsFrom_iff, acceptsFrom_iff]
  constructor
  · intro accepted
    rcases accepted with ⟨final, accepts, reads⟩
    exact ⟨final, (Std.ExtTreeSet.mem_inter_iff.mp accepts).1,
      (reads_trimmed_iff reachable).mp reads⟩
  · intro accepted
    rcases accepted with ⟨final, accepts, reads⟩
    have finalReachable := mem_reachable_of_reads reads reachable
    exact ⟨final, Std.ExtTreeSet.mem_inter_iff.mpr ⟨accepts, finalReachable⟩,
      (reads_trimmed_iff reachable).mpr reads⟩

theorem reachable_trimmed (automaton : Automaton) :
    automaton.trimmed.reachable = automaton.reachable := by
  apply StateSet.ext
  intro state
  rw [mem_reachable_iff_reads, mem_reachable_iff_reads]
  exact exists_congr fun word => reads_trimmed_iff automaton.initial_mem_reachable

theorem unreachable_trimmed (automaton : Automaton) : automaton.trimmed.unreachable = ∅ := by
  apply StateSet.ext
  intro state
  rw [mem_unreachable, reachable_trimmed]
  simp [trimmed]

/-! ## Nothing to trim -/

theorem trimmed_eq_self (wellFormed : automaton.WellFormed)
    (allReachable : automaton.unreachable = ∅) : automaton.trimmed = automaton := by
  have reachable : ∀ state ∈ automaton.states, state ∈ automaton.reachable := by
    intro state member
    apply Decidable.byContradiction
    intro notReachable
    have outside := mem_unreachable.mpr ⟨member, notReachable⟩
    rw [allReachable] at outside
    exact Std.ExtTreeSet.not_mem_empty outside
  apply ext
  case states => exact fun state => ⟨reachable_subset wellFormed, reachable state⟩
  case accepting =>
    intro state
    rw [trimmed, Std.ExtTreeSet.mem_inter_iff, and_iff_left_of_imp]
    exact fun accepts => reachable state (wellFormed.accepting_subset state accepts)
  case transitions =>
    intro edge
    rw [trimmed, Transitions.mem_restrictSources, and_iff_left_of_imp]
    exact fun member => reachable edge.source (wellFormed.source_mem edge member)
  all_goals rfl

/-- Trimming leaves the reachable part of an automaton; to trim it again changes nothing, and nor
does it to trim an automaton without unreachable states. -/
theorem trimming_exact (wellFormed : automaton.WellFormed) :
    automaton.trimmed.IsReachablePart automaton ∧
    automaton.trimmed.trimmed = automaton.trimmed ∧
    (automaton.unreachable = ∅ → automaton.trimmed = automaton) := by
  refine ⟨?_, ?_, ?_⟩
  · constructor
    case wellFormed => exact wellFormed.trimmed
    case states => rfl
    case alphabet => rfl
    case initial => rfl
    case accepting => exact fun _ => Std.ExtTreeSet.mem_inter_iff
    case edges => exact fun _ => Transitions.mem_restrictSources
    case target_mem => exact fun _ => target_mem_reachable
    case extended => exact fun _ => extended_trimmed
    case acceptsFrom => exact fun _ => acceptsFrom_trimmed
    case accepts => exact acceptsFrom_trimmed automaton.initial_mem_reachable
    case unreachable => exact unreachable_trimmed automaton
  · exact trimmed_eq_self wellFormed.trimmed (unreachable_trimmed automaton)
  · exact trimmed_eq_self wellFormed

theorem trimming_exact_blindAlley :
    blindAlley.WellFormed ∧ blindAlley.trimmed ≠ blindAlley ∧
      blindAlley.trimmed.states = .ofList [.first, .next .first, .last] ∧
      blindAlley.trimmed.accepting = ∅ ∧
      (∀ word, blindAlley.trimmed.accepts word = blindAlley.accepts word) ∧
      blindAlley.trimmed.unreachable = ∅ ∧ blindAlley.trimmed.trimmed = blindAlley.trimmed := by
  have wellFormed : blindAlley.WellFormed := by decide +kernel
  rcases trimming_exact wellFormed with ⟨part, twice, _⟩
  refine ⟨wellFormed, ?_, ?_, ?_, part.accepts, part.unreachable, twice⟩
  · decide +kernel
  · exact part.states.trans (by decide +kernel)
  · decide +kernel

end Automaton

end EpsilonAutomata
