import EpsilonAutomata.Proofs.Allocation
import EpsilonAutomata.Proofs.Simulation
import EpsilonAutomata.Combination

/-!
The state that an automaton offers to those who number its states by hand.

The state after the largest one is in nobody's way, so a draft of the automaton takes it, and as no
edge leads to it or away from it, the same words are accepted. After the last state there is no
other, and there the offer is the last state again. So the offer is taken just if the last state is
(`Automaton.offer_exact`), however many others are free.
-/

namespace EpsilonAutomata

theorem StateId.index_next_of_ne_last {state : StateId} (notLast : state ≠ last) :
    state.next.index = state.index + 1 := by
  have different : state.index ≠ last.index := fun equal => notLast (eq_of_index_eq equal)
  have inRange := state.index_lt
  change state.index ≠ 4294967295 at different
  exact index_next (by omega)

namespace StateSet

variable {states : StateSet} {state : StateId}

/-- A set in ascending order ends with its largest member. -/
theorem exists_getLast?_toList (member : state ∈ states) :
    ∃ largest, states.toList.getLast? = some largest ∧ largest ∈ states ∧
      ∀ other ∈ states, other ≤ largest := by
  have nonempty : states.toList ≠ [] := List.ne_nil_of_mem (Std.ExtTreeSet.mem_toList.mpr member)
  cases ends : states.toList.getLast? with
  | none => exact absurd (List.getLast?_eq_none_iff.mp ends) nonempty
  | some largest =>
      rcases List.getLast?_eq_some_iff.mp ends with ⟨others, split⟩
      have ordered := ordered_toList states
      rw [split] at ordered
      have below := (List.pairwise_append.mp ordered).2.2
      refine ⟨largest, rfl, ?_, ?_⟩
      · exact Std.ExtTreeSet.mem_toList.mp (List.mem_of_getLast? ends)
      · intro other otherMember
        have listed : other ∈ others ++ [largest] :=
          split ▸ Std.ExtTreeSet.mem_toList.mpr otherMember
        rcases List.mem_append.mp listed with earlier | only
        · exact Nat.le_of_lt (below other earlier largest (List.mem_singleton.mpr rfl))
        · rw [List.mem_singleton.mp only]
          exact Nat.le_refl _

/-- The state follows the largest member. -/
structure IsJustPast (states : StateSet) (state : StateId) : Prop where
  above : ∀ member ∈ states, member < state
  follows : ∃ largest ∈ states, state.index = largest.index + 1

theorem IsJustPast.unused (past : states.IsJustPast state) : state ∉ states := fun member =>
  Nat.lt_irrefl _ (past.above state member)

end StateSet

namespace Automaton

variable {automaton : Automaton}

theorem exists_nextFreeState_eq_next (wellFormed : automaton.WellFormed) :
    ∃ largest ∈ automaton.states, (∀ other ∈ automaton.states, other ≤ largest) ∧
      automaton.nextFreeState = largest.next := by
  rcases StateSet.exists_getLast?_toList wellFormed.initial_mem with
    ⟨largest, ends, member, greatest⟩
  refine ⟨largest, member, greatest, ?_⟩
  rw [nextFreeState, ends]

theorem isJustPast_nextFreeState (wellFormed : automaton.WellFormed)
    (free : StateId.last ∉ automaton.states) :
    automaton.states.IsJustPast automaton.nextFreeState := by
  rcases exists_nextFreeState_eq_next wellFormed with ⟨largest, member, greatest, offered⟩
  have notLast : largest ≠ .last := fun equal => free (equal ▸ member)
  have index := StateId.index_next_of_ne_last notLast
  rw [offered]
  refine ⟨fun other otherMember => ?_, largest, member, index⟩
  rw [StateId.lt_iff, index]
  exact Nat.lt_succ_of_le (greatest other otherMember)

/-- Nothing is greater than the last state, so it is the largest one where it is in use. -/
theorem nextFreeState_eq_last (wellFormed : automaton.WellFormed)
    (used : StateId.last ∈ automaton.states) : automaton.nextFreeState = .last := by
  rcases exists_nextFreeState_eq_next wellFormed with ⟨largest, _, greatest, offered⟩
  have atLeast : StateId.last.index ≤ largest.index := greatest .last used
  have isLast : largest = .last :=
    StateId.eq_of_index_eq (Nat.le_antisymm (Nat.le_of_lt_succ largest.index_lt) atLeast)
  rw [offered, isLast, StateId.next_last]

theorem nextFreeState_mem_iff (wellFormed : automaton.WellFormed) :
    automaton.nextFreeState ∈ automaton.states ↔ StateId.last ∈ automaton.states := by
  constructor
  · intro taken
    exact Classical.byContradiction fun free =>
      (isJustPast_nextFreeState wellFormed free).unused taken
  · intro used
    rwa [nextFreeState_eq_last wellFormed used]

/-! ## Taking the offer -/

/-- States matter for reading only as the ends of edges. -/
theorem accepts_withStates (automaton : Automaton) (states : StateSet) (word : Word) :
    { automaton with states := states }.accepts word = automaton.accepts word := by
  have accepted : automaton.accepts word = true ↔
      ∃ target ∈ automaton.accepting, automaton.Reads automaton.initial word target :=
    acceptsFrom_iff
  rw [Bool.eq_iff_iff]
  exact acceptsFrom_iff.trans accepted.symm

theorem on_addState_of_unused {state : StateId} (unused : state ∉ automaton.states) :
    (InPlace.addState state).on (.ofAutomaton automaton) =
      (.ok (), .ofAutomaton { automaton with states := automaton.states.insert state }) := by
  have succeeds : (Draft.ofAutomaton automaton).addState state =
      .ok ((Draft.ofAutomaton automaton).ensureState state) :=
    Draft.addState_eq_ok_iff.mpr ⟨unused, rfl⟩
  rw [InPlace.on_addState, succeeds]
  rfl

theorem on_addState_of_used {state : StateId} (used : state ∈ automaton.states) :
    (InPlace.addState state).on (.ofAutomaton automaton) =
      (.error (.duplicateState state), .ofAutomaton automaton) := by
  rw [InPlace.on_addState]
  exact Draft.settle_eq_error_iff.mpr ⟨Draft.addState_eq_error_iff.mpr ⟨used, rfl⟩, rfl⟩

/-- The state that an automaton offers is one of its own just if the last state there is belongs to
it. If not, the offer follows the largest state, a draft of the automaton takes it, and what is
built then differs in its states only and accepts the same words. If the last state is in use it is
offered again, and the draft refuses it and stays as it was. -/
theorem offer_exact (wellFormed : automaton.WellFormed) :
    (automaton.nextFreeState ∈ automaton.states ↔ StateId.last ∈ automaton.states) ∧
    (StateId.last ∉ automaton.states →
      automaton.states.IsJustPast automaton.nextFreeState ∧
      ∃ draft extended,
        (InPlace.addState automaton.nextFreeState).on (.ofAutomaton automaton) = (.ok (), draft) ∧
        draft.build = .ok extended ∧
        extended =
          { automaton with states := automaton.states.insert automaton.nextFreeState } ∧
        ∀ word, extended.accepts word = automaton.accepts word) ∧
    (StateId.last ∈ automaton.states →
      automaton.nextFreeState = .last ∧
      (InPlace.addState automaton.nextFreeState).on (.ofAutomaton automaton) =
        (.error (.duplicateState .last), .ofAutomaton automaton)) := by
  refine ⟨nextFreeState_mem_iff wellFormed, ?free, ?used⟩
  case free =>
    intro free
    have past := isJustPast_nextFreeState wellFormed free
    exact ⟨past, _, _, on_addState_of_unused past.unused, Draft.build_ofAutomaton _, rfl,
      automaton.accepts_withStates _⟩
  case used =>
    intro used
    have offered := nextFreeState_eq_last wellFormed used
    rw [offered]
    exact ⟨rfl, on_addState_of_used used⟩

/-- An edge from the first state to the last but one. -/
def spanning : Automaton where
  states := .ofList [.first, ⟨4294967294, by decide⟩]
  alphabet := .ofList ['a']
  initial := .first
  accepting := {⟨4294967294, by decide⟩}
  transitions := .ofRows [(⟨.first, .literal 'a'⟩, {⟨4294967294, by decide⟩})]

/-- The last state is free, so it is offered and can be taken. Then it is offered again. -/
theorem offer_exact_spanning :
    let filled := { spanning with states := spanning.states.insert .last }
    spanning.WellFormed ∧ StateId.last ∉ spanning.states ∧
      spanning.nextFreeState = .last ∧ spanning.nextFreeState ∉ spanning.states ∧
      (∃ draft extended,
        (InPlace.addState spanning.nextFreeState).on (.ofAutomaton spanning) = (.ok (), draft) ∧
        draft.build = .ok extended ∧ extended.accepts ['a'] = true) ∧
      filled.WellFormed ∧ StateId.last ∈ filled.states ∧
      (InPlace.addState filled.nextFreeState).on (.ofAutomaton filled) =
        (.error (.duplicateState .last), .ofAutomaton filled) := by
  intro filled
  have wellFormed : spanning.WellFormed := by decide +kernel
  have free : StateId.last ∉ spanning.states := by decide +kernel
  have offered : spanning.nextFreeState = .last := by decide +kernel
  have accepted : spanning.accepts ['a'] = true := by decide +kernel
  have filledWellFormed : filled.WellFormed := by decide +kernel
  have used : StateId.last ∈ filled.states := by decide +kernel
  rcases (offer_exact wellFormed).2.1 free with
    ⟨past, draft, extended, succeeds, builds, _, accepts⟩
  exact ⟨wellFormed, free, offered, past.unused,
    ⟨draft, extended, succeeds, builds, (accepts ['a']).trans accepted⟩,
    filledWellFormed, used, ((offer_exact filledWellFormed).2.2 used).2⟩

/-- The last state there is, and no other. -/
def topmost : Automaton :=
  { epsilon with states := {.last}, initial := .last, accepting := {.last} }

/-- An automaton that was numbered from the last state on offers that state, its only one. A draft of
the automaton refuses it and chooses another state when it is asked to. -/
theorem offers_topmost_again :
    epsilon.renumbered .last = some topmost ∧ topmost.WellFormed ∧
      topmost.stateCount < 4294967296 ∧ topmost.nextFreeState ∈ topmost.states ∧
      (InPlace.addState topmost.nextFreeState).on (.ofAutomaton topmost) =
        (.error (.duplicateState .last), .ofAutomaton topmost) ∧
      ∃ draft, InPlace.addNextState.on (.ofAutomaton topmost) = (.ok ⟨1, by decide⟩, draft) := by
  have renumbers : epsilon.renumbered .last = some topmost := by decide +kernel
  have wellFormed : topmost.WellFormed := by decide +kernel
  have few : topmost.stateCount < 4294967296 := by decide +kernel
  have used : StateId.last ∈ topmost.states := by decide +kernel
  have offered : topmost.nextFreeState = .last := nextFreeState_eq_last wellFormed used
  have refused : (InPlace.addState .last).on (.ofAutomaton topmost) =
      (.error (.duplicateState .last), .ofAutomaton topmost) := on_addState_of_used used
  have chosen : (Draft.ofAutomaton topmost).nextState? = some ⟨1, by decide⟩ := by decide +kernel
  have chooses := InPlace.on_addNextState_eq_ok_iff.mpr ⟨chosen, rfl⟩
  rw [offered]
  exact ⟨renumbers, wellFormed, few, used, refused, _, chooses⟩

end Automaton

end EpsilonAutomata
