import EpsilonAutomata.Proofs.Simulation
import EpsilonAutomata.Reachability

/-!
The reachable states are those that some word makes active.

The search for reachable states follows edges without looking at their labels. The edges it follows
to a state are a path, and the path spells a word; the other way round, a path that spells a word is
a way for the search. With the exactness of the simulation this says which states are ever active,
and whether any of them accepts.
-/

namespace EpsilonAutomata

namespace Automaton

variable {automaton : Automaton} {source target state : StateId}

theorem leads_adjacency_iff_reads :
    Leads automaton.transitions.adjacency.targets source target ↔
      ∃ word, automaton.Reads source word target := by
  constructor
  · intro leads
    induction leads with
    | refl state => exact ⟨[], .refl automaton state⟩
    | step next _ induction =>
        rcases Transitions.mem_targets_adjacency.mp next with ⟨symbol, edge⟩
        rcases induction with ⟨word, reads⟩
        cases symbol with
        | epsilon => exact ⟨word, .epsilon edge reads⟩
        | literal character => exact ⟨character :: word, .literal edge reads⟩
  · intro read
    rcases read with ⟨_, symbols, path, rfl⟩
    induction path with
    | nil state => exact .refl state
    | @cons source middle target symbol symbols edge _ induction =>
        exact .step (Transitions.mem_targets_adjacency.mpr ⟨symbol, edge⟩) induction

theorem mem_reachable_iff_reads :
    state ∈ automaton.reachable ↔ ∃ word, automaton.Reads automaton.initial word state :=
  mem_reachable.trans leads_adjacency_iff_reads

theorem mem_reachable_iff_active :
    state ∈ automaton.reachable ↔
      ∃ word, state ∈ automaton.simulator.extended {automaton.initial} word := by
  simp [mem_reachable_iff_reads, mem_extended_iff]

/-- No edge leaves the states of the automaton. -/
theorem reachable_subset (wellFormed : automaton.WellFormed) (member : state ∈ automaton.reachable) :
    state ∈ automaton.states := by
  apply (mem_reachable.mp member).mem_of_closed _ wellFormed.initial_mem
  intro source _ target next
  rcases Transitions.mem_targets_adjacency.mp next with ⟨symbol, edge⟩
  exact wellFormed.target_mem _ edge

theorem mem_unreachable :
    state ∈ automaton.unreachable ↔ state ∈ automaton.states ∧ state ∉ automaton.reachable :=
  Std.ExtTreeSet.mem_diff_iff

theorem isEmptyLanguage_iff :
    automaton.isEmptyLanguage = true ↔ ∀ word, automaton.accepts word = false := by
  have accepted : automaton.reachable.meets automaton.accepting = true ↔
      ∃ word, automaton.accepts word = true := by
    rw [StateSet.meets_iff]
    constructor
    · intro met
      rcases met with ⟨final, reached, accepts⟩
      rcases mem_reachable_iff_reads.mp reached with ⟨word, reads⟩
      exact ⟨word, acceptsFrom_iff.mpr ⟨final, accepts, reads⟩⟩
    · intro accepted
      rcases accepted with ⟨word, accepts⟩
      rcases acceptsFrom_iff.mp accepts with ⟨final, accepts, reads⟩
      exact ⟨final, mem_reachable_iff_reads.mpr ⟨word, reads⟩, accepts⟩
  rw [isEmptyLanguage, Bool.not_eq_true', ← Bool.not_eq_true, accepted, not_exists]
  simp only [Bool.not_eq_true]

/-- The search finds the states that some word makes active, all of them states of the automaton;
the others are the unreachable ones; and the language counts as empty just if no word at all is
accepted. -/
theorem reachability_exact {automaton : Automaton} (wellFormed : automaton.WellFormed) :
    (∀ state ∈ automaton.reachable, state ∈ automaton.states) ∧
    (∀ state, state ∈ automaton.reachable ↔
      ∃ word, state ∈ automaton.simulator.extended {automaton.initial} word) ∧
    (∀ state, state ∈ automaton.unreachable ↔
      state ∈ automaton.states ∧ state ∉ automaton.reachable) ∧
    (automaton.isEmptyLanguage = true ↔ ∀ word, automaton.accepts word = false) :=
  ⟨fun _ => reachable_subset wellFormed, fun _ => mem_reachable_iff_active,
    fun _ => mem_unreachable, isEmptyLanguage_iff⟩

/-- Two states in a circle of epsilon edges, a letter that leads out of it, and an accepting state
that leads into it but is not led to. -/
def blindAlley : Automaton where
  states := .ofList [.first, .next .first, ⟨5, by decide⟩, .last]
  alphabet := .ofList ['a']
  initial := .first
  accepting := {⟨5, by decide⟩}
  transitions := .ofRows
    [(⟨.first, .epsilon⟩, {.next .first}), (⟨.next .first, .epsilon⟩, {.first}),
      (⟨.next .first, .literal 'a'⟩, {.last}), (⟨⟨5, by decide⟩, .epsilon⟩, {.first})]

theorem reachability_exact_blindAlley :
    blindAlley.WellFormed ∧ StateId.last ∈ blindAlley.reachable ∧
      (⟨5, by decide⟩ : StateId) ∈ blindAlley.unreachable ∧
      ∀ word, blindAlley.accepts word = false := by
  have wellFormed : blindAlley.WellFormed := by decide +kernel
  rcases reachability_exact wellFormed with ⟨_, active, unreachable, emptiness⟩
  refine ⟨wellFormed, ?_, ?_, ?_⟩
  · exact (active .last).mpr ⟨['a'], by decide +kernel⟩
  · exact (unreachable _).mpr ⟨by decide +kernel, by decide +kernel⟩
  · exact emptiness.mp (by decide +kernel)

end Automaton

end EpsilonAutomata
