import EpsilonAutomata.Assembly.Lemmas
import EpsilonAutomata.Combination

/-!
The states, the edges and the accepting states of combined automata.

Each combination consists of the copies of its arguments and of a few epsilon edges, and it accepts
in copies of accepting states; an iteration accepts in its hub as well. The states are numbered
without gaps: the hub first, if there is one, and then the copies, each as far behind the start of
its block as there are states below the original.
-/

namespace EpsilonAutomata

namespace Assembly

/-- The assembly that has handed out the first state. -/
def withHub : Assembly :=
  blank.allocate.2

theorem index_next_blank : blank.next.index = 0 := rfl

theorem not_mem_states_blank (state : StateId) : state ∉ blank.states :=
  Std.ExtTreeSet.not_mem_empty

theorem not_mem_accepting_blank (state : StateId) : state ∉ blank.accepting :=
  Std.ExtTreeSet.not_mem_empty

theorem not_mem_transitions_blank (edge : Edge) : edge ∉ blank.transitions :=
  Transitions.not_mem_empty edge

theorem alphabet_blank : blank.alphabet = ∅ := rfl

theorem index_next_withHub : withHub.next.index = 1 :=
  StateId.index_next (by decide)

theorem mem_states_withHub {state : StateId} : state ∈ withHub.states ↔ state.index = 0 := by
  change state ∈ blank.states.insert .first ↔ _
  rw [StateSet.mem_insert, or_iff_left (not_mem_states_blank state), StateId.first_eq_iff]

theorem not_mem_accepting_withHub (state : StateId) : state ∉ withHub.accepting :=
  not_mem_accepting_blank state

theorem not_mem_transitions_withHub (edge : Edge) : edge ∉ withHub.transitions :=
  not_mem_transitions_blank edge

theorem alphabet_withHub : withHub.alphabet = ∅ := rfl

end Assembly

namespace Automaton

variable {left right inner : Automaton} {edge : Edge} {state : StateId}

/-- The copies of the states of an automaton behind the first state. -/
def behindHub (inner : Automaton) : StateId → StateId :=
  Assembly.withHub.copy inner

section

variable (room : 1 + inner.stateCount ≤ 4294967296)

include room

theorem separates_behindHub : inner.Separates inner.behindHub := by
  rw [← Assembly.index_next_withHub] at room
  exact Assembly.separates_copy room

theorem index_behindHub (member : state ∈ inner.states) :
    (inner.behindHub state).index = 1 + inner.states.rank state := by
  rw [← Assembly.index_next_withHub] at room ⊢
  exact Assembly.index_copy room member

theorem behindHub_avoids_first : inner.Avoids inner.behindHub .first := by
  rw [← Assembly.index_next_withHub] at room
  apply Assembly.avoids_copy room
  rw [Assembly.index_next_withHub]
  exact Nat.zero_lt_one

end

/-! ## Union -/

/-- The copies of the states of the second automaton of a union. -/
def unionRight (left right : Automaton) : StateId → StateId :=
  (Assembly.withHub.embed left true).2.copy right

theorem union_eq (left right : Automaton) :
    left.union right =
      ((((Assembly.withHub.embed left true).2.embed right true).2.addEpsilon .first
        (left.behindHub left.initial)).addEpsilon .first
        (left.unionRight right right.initial)).finish .first := rfl

theorem mem_transitions_union :
    edge ∈ (left.union right).transitions ↔
      (∃ original ∈ left.transitions, original.relabel left.behindHub = edge) ∨
      (∃ original ∈ right.transitions, original.relabel (left.unionRight right) = edge) ∨
      ⟨.first, .epsilon, left.behindHub left.initial⟩ = edge ∨
      ⟨.first, .epsilon, left.unionRight right right.initial⟩ = edge := by
  rw [union_eq, Assembly.transitions_finish, Assembly.mem_transitions_addEpsilon,
    Assembly.mem_transitions_addEpsilon, Assembly.mem_transitions_embed,
    Assembly.mem_transitions_embed]
  simp only [Assembly.not_mem_transitions_withHub, false_or, or_assoc]
  rfl

theorem mem_accepting_union :
    state ∈ (left.union right).accepting ↔
      (∃ original ∈ left.accepting, left.behindHub original = state) ∨
      (∃ original ∈ right.accepting, left.unionRight right original = state) := by
  simp only [union_eq, Assembly.accepting_finish, Assembly.accepting_addEpsilon,
    Assembly.mem_accepting_embed, Assembly.not_mem_accepting_withHub, false_or, true_and]
  rfl

theorem alphabet_union : (left.union right).alphabet = left.alphabet ∪ right.alphabet := by
  simp only [union_eq, Assembly.alphabet_finish, Assembly.alphabet_addEpsilon,
    Assembly.alphabet_embed, Assembly.alphabet_withHub, Alphabet.empty_union]

section

variable (nonempty : 0 < right.stateCount)
  (room : 1 + left.stateCount + right.stateCount ≤ 4294967296)

include nonempty room

theorem mem_states_union :
    state ∈ (left.union right).states ↔
      state.index < 1 + left.stateCount + right.stateCount := by
  rw [← Assembly.index_next_withHub] at room ⊢
  rw [union_eq, Assembly.states_finish, Assembly.states_addEpsilon, Assembly.states_addEpsilon,
    Assembly.mem_states_second nonempty room, Assembly.mem_states_withHub,
    Assembly.index_next_withHub]
  omega

theorem index_unionRight (member : state ∈ right.states) :
    (left.unionRight right state).index = 1 + left.stateCount + right.states.rank state := by
  rw [← Assembly.index_next_withHub] at room ⊢
  exact Assembly.index_copy_second nonempty room member

theorem separates_unionRight : right.Separates (left.unionRight right) := by
  rw [← Assembly.index_next_withHub] at room
  exact Assembly.separates_copy (Assembly.room_second nonempty room)

theorem unionRight_avoids_first : right.Avoids (left.unionRight right) .first := by
  rw [← Assembly.index_next_withHub] at room
  apply Assembly.avoids_copy_second nonempty room
  rw [Assembly.index_next_withHub]
  exact Nat.zero_lt_one

theorem unionRight_avoids_behindHub (member : state ∈ left.states) :
    right.Avoids (left.unionRight right) (left.behindHub state) := by
  rw [← Assembly.index_next_withHub] at room
  exact Assembly.avoids_copy_second_copy nonempty room member

theorem behindHub_avoids_unionRight (member : state ∈ right.states) :
    left.Avoids left.behindHub (left.unionRight right state) := by
  rw [← Assembly.index_next_withHub] at room
  exact Assembly.avoids_copy_copy_second nonempty room member

end

/-! ## Concatenation -/

/-- The copies of the states of the first automaton of a concatenation. -/
def concatLeft (left : Automaton) : StateId → StateId :=
  Assembly.blank.copy left

/-- The copies of the states of the second automaton of a concatenation. -/
def concatRight (left right : Automaton) : StateId → StateId :=
  (Assembly.blank.embed left false).2.copy right

theorem concat_eq (left right : Automaton) :
    left.concat right =
      (((Assembly.blank.embed left false).2.embed right true).2.addEpsilons
        (left.accepting.map left.concatLeft) (left.concatRight right right.initial)).finish
        (left.concatLeft left.initial) := rfl

theorem mem_transitions_concat :
    edge ∈ (left.concat right).transitions ↔
      (∃ original ∈ left.transitions, original.relabel left.concatLeft = edge) ∨
      (∃ original ∈ right.transitions, original.relabel (left.concatRight right) = edge) ∨
      ∃ final ∈ left.accepting,
        ⟨left.concatLeft final, .epsilon, left.concatRight right right.initial⟩ = edge := by
  rw [concat_eq, Assembly.transitions_finish, Assembly.mem_transitions_addEpsilons,
    Assembly.mem_transitions_embed, Assembly.mem_transitions_embed, StateSet.exists_mem_map]
  simp only [Assembly.not_mem_transitions_blank, false_or, or_assoc]
  rfl

theorem mem_accepting_concat :
    state ∈ (left.concat right).accepting ↔
      ∃ original ∈ right.accepting, left.concatRight right original = state := by
  simp only [concat_eq, Assembly.accepting_finish, Assembly.accepting_addEpsilons,
    Assembly.mem_accepting_embed, Assembly.not_mem_accepting_blank, false_or, true_and,
    Bool.false_eq_true, false_and]
  rfl

theorem alphabet_concat : (left.concat right).alphabet = left.alphabet ∪ right.alphabet := by
  simp only [concat_eq, Assembly.alphabet_finish, Assembly.alphabet_addEpsilons,
    Assembly.alphabet_embed, Assembly.alphabet_blank, Alphabet.empty_union]

section

variable (nonempty : 0 < right.stateCount)
  (room : left.stateCount + right.stateCount ≤ 4294967296)

include room

theorem separates_concatLeft : left.Separates left.concatLeft := by
  apply Assembly.separates_copy
  rw [Assembly.index_next_blank]
  omega

theorem index_concatLeft (member : state ∈ left.states) :
    (left.concatLeft state).index = left.states.rank state := by
  rw [concatLeft, Assembly.index_copy _ member, Assembly.index_next_blank, Nat.zero_add]
  rw [Assembly.index_next_blank]
  omega

include nonempty

theorem mem_states_concat :
    state ∈ (left.concat right).states ↔ state.index < left.stateCount + right.stateCount := by
  rw [← Nat.zero_add left.stateCount, ← Assembly.index_next_blank] at room ⊢
  rw [concat_eq, Assembly.states_finish, Assembly.states_addEpsilons,
    Assembly.mem_states_second nonempty room, or_iff_right (Assembly.not_mem_states_blank state)]
  exact and_iff_right (Nat.zero_le state.index)

theorem index_concatRight (member : state ∈ right.states) :
    (left.concatRight right state).index = left.stateCount + right.states.rank state := by
  rw [← Nat.zero_add left.stateCount, ← Assembly.index_next_blank] at room ⊢
  exact Assembly.index_copy_second nonempty room member

theorem separates_concatRight : right.Separates (left.concatRight right) := by
  rw [← Nat.zero_add left.stateCount, ← Assembly.index_next_blank] at room
  exact Assembly.separates_copy (Assembly.room_second nonempty room)

theorem concatRight_avoids_concatLeft (member : state ∈ left.states) :
    right.Avoids (left.concatRight right) (left.concatLeft state) := by
  rw [← Nat.zero_add left.stateCount, ← Assembly.index_next_blank] at room
  exact Assembly.avoids_copy_second_copy nonempty room member

theorem concatLeft_avoids_concatRight (member : state ∈ right.states) :
    left.Avoids left.concatLeft (left.concatRight right state) := by
  rw [← Nat.zero_add left.stateCount, ← Assembly.index_next_blank] at room
  exact Assembly.avoids_copy_copy_second nonempty room member

end

/-! ## Iteration -/

theorem star_eq (inner : Automaton) :
    inner.star =
      (((((Assembly.withHub.embed inner true).2.setAccepting .first).addEpsilon .first
        (inner.behindHub inner.initial)).addEpsilons (inner.accepting.map inner.behindHub)
        (inner.behindHub inner.initial)).addEpsilons (inner.accepting.map inner.behindHub)
        .first).finish .first := rfl

theorem mem_transitions_star :
    edge ∈ inner.star.transitions ↔
      (∃ original ∈ inner.transitions, original.relabel inner.behindHub = edge) ∨
      ⟨.first, .epsilon, inner.behindHub inner.initial⟩ = edge ∨
      (∃ final ∈ inner.accepting,
        ⟨inner.behindHub final, .epsilon, inner.behindHub inner.initial⟩ = edge) ∨
      ∃ final ∈ inner.accepting, ⟨inner.behindHub final, .epsilon, .first⟩ = edge := by
  rw [star_eq, Assembly.transitions_finish, Assembly.mem_transitions_addEpsilons,
    Assembly.mem_transitions_addEpsilons, Assembly.mem_transitions_addEpsilon,
    Assembly.transitions_setAccepting, Assembly.mem_transitions_embed, StateSet.exists_mem_map,
    StateSet.exists_mem_map]
  simp only [Assembly.not_mem_transitions_withHub, false_or, or_assoc]
  rfl

theorem mem_accepting_star :
    state ∈ inner.star.accepting ↔
      .first = state ∨ ∃ original ∈ inner.accepting, inner.behindHub original = state := by
  simp only [star_eq, Assembly.accepting_finish, Assembly.accepting_addEpsilons,
    Assembly.accepting_addEpsilon, Assembly.accepting_setAccepting, StateSet.mem_insert,
    Assembly.mem_accepting_embed, Assembly.not_mem_accepting_withHub, false_or, true_and]
  rfl

theorem alphabet_star : inner.star.alphabet = inner.alphabet := by
  simp only [star_eq, Assembly.alphabet_finish, Assembly.alphabet_addEpsilons,
    Assembly.alphabet_addEpsilon, Assembly.alphabet_setAccepting, Assembly.alphabet_embed,
    Assembly.alphabet_withHub, Alphabet.empty_union]

theorem mem_states_star (room : 1 + inner.stateCount ≤ 4294967296) :
    state ∈ inner.star.states ↔ state.index < 1 + inner.stateCount := by
  rw [← Assembly.index_next_withHub] at room ⊢
  simp only [star_eq, Assembly.states_finish, Assembly.states_addEpsilons,
    Assembly.states_addEpsilon, Assembly.states_setAccepting]
  rw [Assembly.mem_states_embed room, Assembly.mem_states_withHub, Assembly.index_next_withHub]
  omega

end Automaton

end EpsilonAutomata
