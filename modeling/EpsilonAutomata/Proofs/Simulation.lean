import EpsilonAutomata.Path
import EpsilonAutomata.Simulator

/-!
Active states and paths.

While an automaton reads a word, the active states are those that the paths spelling the word end
in. This holds because the set of active states is closed under epsilon edges at every moment: it
contains the end of every path that spells nothing.
-/

namespace EpsilonAutomata

/-! ## Without active states -/

namespace Simulator

variable {simulator : Simulator} (closure_empty : simulator.closure ∅ = ∅)

include closure_empty

theorem stepClosed_empty (character : Char) : simulator.stepClosed ∅ character = ∅ :=
  closure_empty

/-- Stopping at the empty set makes no difference, as no letter leads out of it. -/
theorem continueFrom_eq_foldl (active : StateSet) (word : Word) :
    simulator.continueFrom active word = word.foldl simulator.stepClosed active := by
  induction word generalizing active with
  | nil => rfl
  | cons character rest induction =>
      rw [continueFrom, List.foldl_cons, ← induction]
      split
      · next isEmpty =>
          rw [Std.ExtTreeSet.isEmpty_iff.mp isEmpty, stepClosed_empty closure_empty,
            continueFrom_empty]
      · rfl

theorem extended_append (states : StateSet) (front back : Word) :
    simulator.extended states (front ++ back) =
      back.foldl simulator.stepClosed (simulator.extended states front) := by
  simp only [extended, continueFrom_eq_foldl closure_empty, List.foldl_append]

end Simulator

namespace Automaton

/-- No epsilon edge leaves the set. -/
def EpsilonClosed (automaton : Automaton) (states : StateSet) : Prop :=
  ∀ source ∈ states, ∀ target, automaton.Reads source [] target → target ∈ states

variable {automaton : Automaton} {states active : StateSet} {character : Char} {word : Word}
  {target : StateId}

theorem mem_closure_iff_reads :
    target ∈ automaton.closure states ↔ ∃ source ∈ states, automaton.Reads source [] target := by
  simp only [reads_nil_iff]
  exact mem_closure

theorem epsilonClosed_closure (automaton : Automaton) (states : StateSet) :
    automaton.EpsilonClosed (automaton.closure states) := by
  intro middle middleMember target second
  rcases mem_closure_iff_reads.mp middleMember with ⟨source, member, first⟩
  exact mem_closure_iff_reads.mpr ⟨source, member, first.append second⟩

theorem closure_empty (automaton : Automaton) : automaton.closure ∅ = ∅ := by
  apply StateSet.ext
  intro target
  rw [mem_closure_iff_reads]
  simp

/-! ## One letter -/

theorem epsilonClosed_stepClosed (automaton : Automaton) (active : StateSet)
    (character : Char) :
    automaton.EpsilonClosed (automaton.simulator.stepClosed active character) :=
  automaton.epsilonClosed_closure _

theorem mem_stepClosed_iff :
    target ∈ automaton.simulator.stepClosed active character ↔
      ∃ source ∈ active, ∃ next,
        (⟨source, .literal character, next⟩ : Edge) ∈ automaton.transitions ∧
        automaton.Reads next [] target := by
  change target ∈ automaton.closure (automaton.simulator.step active character) ↔ _
  rw [mem_closure_iff_reads]
  constructor
  · intro closed
    rcases closed with ⟨next, nextMember, reads⟩
    rcases Simulator.mem_step.mp nextMember with ⟨source, member, edge⟩
    exact ⟨source, member, next, edge, reads⟩
  · intro stepped
    rcases stepped with ⟨source, member, next, edge, reads⟩
    exact ⟨next, Simulator.mem_step.mpr ⟨source, member, edge⟩, reads⟩

/-- From a closed set, reading a word is reading its first letter and then the rest: the epsilon
edges before the letter lead nowhere new. -/
theorem exists_mem_stepClosed_iff (closed : automaton.EpsilonClosed active) :
    (∃ middle ∈ automaton.simulator.stepClosed active character,
        automaton.Reads middle word target) ↔
      ∃ source ∈ active, automaton.Reads source (character :: word) target := by
  constructor
  · intro continued
    rcases continued with ⟨middle, middleMember, rest⟩
    rcases mem_stepClosed_iff.mp middleMember with ⟨source, member, next, edge, silent⟩
    exact ⟨source, member, .literal edge (silent.append rest)⟩
  · intro started
    rcases started with ⟨source, member, reads⟩
    rcases reads.uncons with ⟨before, after, silent, edge, rest⟩
    have beforeMember : before ∈ active := closed source member before silent
    have afterMember : after ∈ automaton.simulator.stepClosed active character :=
      mem_stepClosed_iff.mpr ⟨before, beforeMember, after, edge, .refl automaton after⟩
    exact ⟨after, afterMember, rest⟩

/-! ## Whole words -/

theorem mem_foldl_stepClosed_iff (closed : automaton.EpsilonClosed active) :
    target ∈ word.foldl automaton.simulator.stepClosed active ↔
      ∃ source ∈ active, automaton.Reads source word target := by
  induction word generalizing active with
  | nil =>
      constructor
      · exact fun member => ⟨target, member, .refl automaton target⟩
      · intro reached
        rcases reached with ⟨source, member, silent⟩
        exact closed source member target silent
  | cons character rest induction =>
      rw [List.foldl_cons, induction (automaton.epsilonClosed_stepClosed active character)]
      exact exists_mem_stepClosed_iff closed

theorem mem_extended_iff :
    target ∈ automaton.simulator.extended states word ↔
      ∃ source ∈ states, automaton.Reads source word target := by
  change target ∈ automaton.simulator.continueFrom (automaton.closure states) word ↔ _
  rw [Simulator.continueFrom_eq_foldl automaton.closure_empty,
    mem_foldl_stepClosed_iff (automaton.epsilonClosed_closure states)]
  constructor
  · intro continued
    rcases continued with ⟨middle, middleMember, reads⟩
    rcases mem_closure_iff_reads.mp middleMember with ⟨source, member, silent⟩
    exact ⟨source, member, silent.append reads⟩
  · intro started
    rcases started with ⟨source, member, reads⟩
    exact ⟨source, mem_closure_iff_reads.mpr ⟨source, member, .refl automaton source⟩, reads⟩

/-! ## Acceptance -/

theorem acceptsFrom_iff {state : StateId} :
    automaton.simulator.acceptsFrom state word = true ↔
      ∃ target ∈ automaton.accepting, automaton.Reads state word target := by
  rw [Simulator.acceptsFrom, Simulator.isAcceptingSet, StateSet.meets_iff]
  simp only [mem_extended_iff, StateSet.mem_singleton]
  constructor
  · intro met
    rcases met with ⟨target, reached, accepts⟩
    rcases reached with ⟨source, rfl, reads⟩
    exact ⟨target, accepts, reads⟩
  · intro accepted
    rcases accepted with ⟨target, accepts, reads⟩
    exact ⟨target, ⟨state, rfl, reads⟩, accepts⟩

/-- The simulation is exact: it finds the ends of all paths that spell the word and of no others,
from any set of states and with any epsilon cycles. So it accepts a word where such a path leads to
an accepting state. -/
theorem simulation_exact (automaton : Automaton) :
    (∀ states word target, target ∈ automaton.simulator.extended states word ↔
      ∃ source ∈ states, automaton.Reads source word target) ∧
    (∀ state word, automaton.simulator.acceptsFrom state word = true ↔
      ∃ target ∈ automaton.accepting, automaton.Reads state word target) ∧
    (∀ word, automaton.accepts word = true ↔
      ∃ target ∈ automaton.accepting, automaton.Reads automaton.initial word target) := by
  refine ⟨?_, ?_, ?_⟩
  · intro states word target
    exact mem_extended_iff
  · intro state word
    exact acceptsFrom_iff
  · intro word
    exact acceptsFrom_iff

end Automaton

end EpsilonAutomata
