import Mathlib.Algebra.Group.Nat.Defs
import EpsilonAutomata.Proofs.Combination.Blueprint
import EpsilonAutomata.Proofs.Invariant.Combination
import EpsilonAutomata.Proofs.Isomorphism

/-!
What numbering the states anew does to an automaton.

The state of a new number is found by counting: it is as far from the start as there are states
below the old one. This determines the result (`Automaton.IsNumbering.unique`), and it depends on
the order of the states alone (`Automaton.SameInOrder.isNumbering`). So to number the states once
more makes the first time obsolete, and to number them as they are changes nothing.

Numbering fails where the last number would be too large. It also fails where the states are all
there are, which needs no other numbers than they have (`Automaton.not_renumbered_doubling`).
-/

namespace EpsilonAutomata

/-! ## Blocks of states -/

namespace StateSet

variable {states : StateSet} {least count : Nat}
  (block : ∀ state, state ∈ states ↔ least ≤ state.index ∧ state.index < least + count)
  (inRange : least + count ≤ 4294967296)

include block inRange

theorem map_index_toList_of_block :
    states.toList.map StateId.index = List.range' least count := by
  have ordered : (states.toList.map StateId.index).Pairwise (· < ·) :=
    List.pairwise_map.mpr (ordered_toList states)
  have distinct : (states.toList.map StateId.index).Nodup := ordered.imp Nat.ne_of_lt
  have sameMembers : (states.toList.map StateId.index).Perm (List.range' least count) := by
    rw [List.perm_ext_iff_of_nodup distinct List.nodup_range']
    intro index
    rw [List.mem_map, List.mem_range'_1]
    constructor
    · intro listed
      rcases listed with ⟨state, member, rfl⟩
      exact (block state).mp (Std.ExtTreeSet.mem_toList.mp member)
    · intro range
      let state : StateId := ⟨index, Nat.lt_of_lt_of_le range.2 inRange⟩
      exact ⟨state, Std.ExtTreeSet.mem_toList.mpr ((block state).mpr range), rfl⟩
  apply sameMembers.eq_of_pairwise _ ordered List.pairwise_lt_range'
  intro left right _ _ less greater
  exact absurd less (Nat.lt_asymm greater)

theorem add_rank_of_block {state : StateId} (member : state ∈ states) :
    least + states.rank state = state.index := by
  rcases exists_getElem_eq member with ⟨position, inList, rfl, rank⟩
  have inMap : position < (states.toList.map StateId.index).length := by
    rwa [List.length_map]
  have index : (states.toList.map StateId.index)[position] = least + position := by
    simp only [map_index_toList_of_block block inRange, List.getElem_range', Nat.one_mul]
  rw [rank, ← index, List.getElem_map]

end StateSet

namespace Automaton

/-! ## Numberings -/

/-- The result has, for each state of the automaton, the state that is as far from `start` as there
are states below it in the automaton, and is the same in all else. -/
structure IsNumbering (result automaton : Automaton) (start : StateId) : Prop where
  states : ∀ state, state ∈ result.states ↔
    ∃ original ∈ automaton.states, state.index = automaton.placed start.index original
  alphabet : result.alphabet = automaton.alphabet
  initial : result.initial.index = automaton.placed start.index automaton.initial
  accepting : ∀ state, state ∈ result.accepting ↔ automaton.PlacedAccepting start.index state
  edges : ∀ edge, edge ∈ result.transitions ↔ automaton.PlacedEdge start.index edge

variable {automaton other result : Automaton} {start : StateId}

theorem IsNumbering.unique (numbers : result.IsNumbering automaton start)
    (otherNumbers : other.IsNumbering automaton start) : result = other := by
  apply ext
  case states => exact fun state => (numbers.states state).trans (otherNumbers.states state).symm
  case alphabet => exact numbers.alphabet.trans otherNumbers.alphabet.symm
  case initial => exact StateId.eq_of_index_eq (numbers.initial.trans otherNumbers.initial.symm)
  case accepting =>
    exact fun state => (numbers.accepting state).trans (otherNumbers.accepting state).symm
  case transitions => exact fun edge => (numbers.edges edge).trans (otherNumbers.edges edge).symm

theorem isNumbering_relabel (wellFormed : automaton.WellFormed) {image : StateId → StateId}
    (places : automaton.Places start.index image) :
    (automaton.relabel image).IsNumbering automaton start where
  states state := by
    rw [relabel, StateSet.mem_map]
    constructor
    · intro found
      rcases found with ⟨original, member, rfl⟩
      exact ⟨original, member, places original member⟩
    · intro found
      rcases found with ⟨original, member, index⟩
      exact ⟨original, member, StateId.eq_of_index_eq ((places original member).trans index.symm)⟩
  alphabet := rfl
  initial := places automaton.initial wellFormed.initial_mem
  accepting state :=
    StateSet.mem_map.trans (exists_image_eq_iff_placedAccepting wellFormed places)
  edges edge :=
    Transitions.mem_relabel.trans (exists_relabel_eq_iff_placedEdge wellFormed places)

/-- Whether the automaton or another one with states in the same order is numbered makes no
difference. -/
theorem SameInOrder.isNumbering (same : automaton.SameInOrder other)
    (wellFormed : automaton.WellFormed) (numbers : result.IsNumbering other start) :
    result.IsNumbering automaton start where
  states state := by
    rw [numbers.states state]
    rcases same with ⟨transform, ascends, rfl⟩
    change (∃ image ∈ automaton.states.map transform, _) ↔ _
    rw [StateSet.exists_mem_map]
    exact exists_congr fun original => and_congr_right fun member => by
      rw [placed_relabel ascends start.index member]
  alphabet := numbers.alphabet.trans same.alphabet_eq
  initial := numbers.initial.trans (same.placed_initial_eq wellFormed start.index)
  accepting state := same.placedAccepting_eq wellFormed ▸ numbers.accepting state
  edges edge := same.placedEdge_eq wellFormed ▸ numbers.edges edge

/-! ## Numbering anew -/

theorem stateCount_le (automaton : Automaton) : automaton.stateCount ≤ 4294967296 :=
  StateSet.size_le automaton.states

theorem renumbered_eq_none_iff (wellFormed : automaton.WellFormed) :
    automaton.renumbered start = none ↔
      automaton.stateCount = 4294967296 ∨
        4294967295 < start.index + automaton.stateCount - 1 := by
  have nonempty := wellFormed.stateCount_pos
  have limit := automaton.stateCount_le
  rw [renumbered]
  split
  · next inRange =>
      simp only [reduceCtorEq, false_iff]
      omega
  · next outOfRange =>
      simp only [true_iff]
      omega

theorem isNumbering_of_renumbered (wellFormed : automaton.WellFormed)
    (succeeds : automaton.renumbered start = some result) :
    result.IsNumbering automaton start := by
  rcases renumbered_eq_some_iff.mp succeeds with ⟨inRange, rfl⟩
  have room : start.index + automaton.stateCount ≤ 4294967296 := by omega
  rw [finish_embed_startingAt room]
  exact isNumbering_relabel wellFormed fun _ => Assembly.index_copy room

theorem SameInOrder.renumbered_eq_none_iff (same : automaton.SameInOrder other)
    (wellFormed : automaton.WellFormed) :
    other.renumbered start = none ↔ automaton.renumbered start = none := by
  rw [Automaton.renumbered_eq_none_iff (same.wellFormed wellFormed), same.stateCount_eq,
    Automaton.renumbered_eq_none_iff wellFormed]

/-- The numbers that the states had are not used. -/
theorem SameInOrder.renumbered_eq (same : automaton.SameInOrder other)
    (wellFormed : automaton.WellFormed) (start : StateId) :
    other.renumbered start = automaton.renumbered start := by
  cases outcome : automaton.renumbered start with
  | none => exact (same.renumbered_eq_none_iff wellFormed).mpr outcome
  | some result =>
      cases otherOutcome : other.renumbered start with
      | none =>
          have fails := (same.renumbered_eq_none_iff wellFormed).mp otherOutcome
          rw [outcome] at fails
          cases fails
      | some otherResult =>
          have numbers := isNumbering_of_renumbered wellFormed outcome
          have otherNumbers := isNumbering_of_renumbered (same.wellFormed wellFormed) otherOutcome
          exact congrArg some ((same.isNumbering wellFormed otherNumbers).unique numbers)

theorem renumbered_eq_self (wellFormed : automaton.WellFormed)
    (notAll : automaton.stateCount ≠ 4294967296)
    (block : ∀ state, state ∈ automaton.states ↔
      start ≤ state ∧ state.index < start.index + automaton.stateCount) :
    automaton.renumbered start = some automaton := by
  have room : start.index + automaton.stateCount ≤ 4294967296 := by
    rw [stateCount, ← Std.ExtTreeSet.length_toList]
    apply StateSet.add_length_le_of_ordered (StateSet.ordered_toList automaton.states)
    · exact fun state listed => ((block state).mp (Std.ExtTreeSet.mem_toList.mp listed)).1
    · exact Nat.le_of_lt start.index_lt
  have places : automaton.Places start.index id := fun _ member =>
    (StateSet.add_rank_of_block block room member).symm
  have numbers := isNumbering_relabel wellFormed places
  rw [relabel_id] at numbers
  cases outcome : automaton.renumbered start with
  | none =>
      have nonempty := wellFormed.stateCount_pos
      rcases (renumbered_eq_none_iff wellFormed).mp outcome with all | tooLarge
      · exact absurd all notAll
      · omega
  | some result =>
      exact congrArg some ((isNumbering_of_renumbered wellFormed outcome).unique numbers)

/-- Numbering anew fails where all states there are belong to the automaton and where the last
number would be too large, and nowhere else. It changes the states to the block of states from
`start` on, in their order, and nothing else about the automaton. -/
theorem renumbering_exact (wellFormed : automaton.WellFormed) :
    (∀ start, automaton.renumbered start = none ↔
      automaton.stateCount = 4294967296 ∨
        4294967295 < start.index + automaton.stateCount - 1) ∧
    (∀ start result, automaton.renumbered start = some result →
      result.IsNumbering automaton start ∧ result.WellFormed ∧
        ∀ word, result.accepts word = automaton.accepts word) ∧
    (∀ start again result, automaton.renumbered start = some result →
      result.renumbered again = automaton.renumbered again) ∧
    ∀ start, automaton.stateCount ≠ 4294967296 →
      (∀ state, state ∈ automaton.states ↔
        start ≤ state ∧ state.index < start.index + automaton.stateCount) →
      automaton.renumbered start = some automaton := by
  refine ⟨?_, ?_, ?_, ?_⟩
  · exact fun start => renumbered_eq_none_iff wellFormed
  · intro start result succeeds
    have same := sameInOrder_of_renumbered succeeds
    exact ⟨isNumbering_of_renumbered wellFormed succeeds, same.wellFormed wellFormed,
      same.accepts_eq wellFormed⟩
  · exact fun start again result succeeds =>
      (sameInOrder_of_renumbered succeeds).renumbered_eq wellFormed again
  · exact fun start => renumbered_eq_self wellFormed

/-- The three scattered states fit in the last three states there are, and in no block further up. -/
theorem renumbering_exact_topmost :
    scattered.WellFormed ∧ scattered.renumbered ⟨4294967294, by decide⟩ = none ∧
      ∃ top, scattered.renumbered ⟨4294967293, by decide⟩ = some top ∧
        top.states =
          .ofList [⟨4294967293, by decide⟩, ⟨4294967294, by decide⟩, .last] ∧
        top.initial = ⟨4294967294, by decide⟩ ∧ top.accepts ['a'] = true ∧
        top.renumbered .first = scattered.renumbered .first ∧
        top.renumbered ⟨4294967293, by decide⟩ = some top := by
  have wellFormed : scattered.WellFormed := by decide +kernel
  rcases renumbering_exact wellFormed with ⟨fails, numbers, again, _⟩
  have tooFar : scattered.renumbered ⟨4294967294, by decide⟩ = none :=
    (fails ⟨4294967294, by decide⟩).mpr (.inr (by decide +kernel))
  have fits : (scattered.renumbered ⟨4294967293, by decide⟩).isSome := by decide +kernel
  rcases Option.isSome_iff_exists.mp fits with ⟨top, succeeds⟩
  rcases numbers _ top succeeds with ⟨numbering, topWellFormed, accepts⟩
  have states : top.states =
      .ofList [⟨4294967293, by decide⟩, ⟨4294967294, by decide⟩, .last] := by
    have computed : (scattered.renumbered ⟨4294967293, by decide⟩).map Automaton.states =
        some (.ofList [⟨4294967293, by decide⟩, ⟨4294967294, by decide⟩, .last]) := by
      decide +kernel
    rw [succeeds] at computed
    exact Option.some.inj computed
  have initial : top.initial = ⟨4294967294, by decide⟩ :=
    StateId.eq_of_index_eq (numbering.initial.trans (by decide +kernel))
  have accepted : top.accepts ['a'] = true := (accepts ['a']).trans (by decide +kernel)
  exact ⟨wellFormed, tooFar, top, succeeds, states, initial, accepted,
    again _ .first top succeeds, (again _ _ top succeeds).trans succeeds⟩

/-! ## An automaton of all states -/

/-- Twice as many states with each step, and no edges. -/
def doubling : Nat → Automaton
  | 0 => .empty
  | steps + 1 => (doubling steps).concat (doubling steps)

theorem wellFormed_doubling (steps : Nat) : (doubling steps).WellFormed := by
  induction steps with
  | zero => exact wellFormed_empty
  | succ steps induction => exact induction.concat induction

theorem stateCount_doubling {steps : Nat} (few : steps ≤ 32) :
    (doubling steps).stateCount = 2 ^ steps := by
  induction steps with
  | zero => rfl
  | succ steps induction =>
      have half := induction (Nat.le_of_succ_le few)
      have whole : 2 ^ steps + 2 ^ steps = 2 ^ (steps + 1) := by omega
      have limit : 2 ^ (steps + 1) ≤ 2 ^ 32 := Nat.pow_le_pow_right (by decide) few
      have wellFormed := wellFormed_doubling steps
      have room : (doubling steps).stateCount + (doubling steps).stateCount ≤ 4294967296 := by
        rw [half, whole]
        exact limit
      rw [doubling, stateCount_concat wellFormed wellFormed room, half, whole]

/-- An automaton of all the states there are cannot be numbered from the first one on, though its
last number would be that of the last state. -/
theorem not_renumbered_doubling :
    (doubling 32).WellFormed ∧
      ¬((doubling 32).renumbered .first = none ↔
        4294967295 < StateId.first.index + (doubling 32).stateCount - 1) := by
  have count : (doubling 32).stateCount = 4294967296 := stateCount_doubling (Nat.le_refl 32)
  have fails := (@renumbered_eq_none_iff (doubling 32) .first (wellFormed_doubling 32)).mpr (.inl count)
  refine ⟨wellFormed_doubling 32, ?_⟩
  rw [fails, count]
  simp [StateId.first]

end Automaton

end EpsilonAutomata
