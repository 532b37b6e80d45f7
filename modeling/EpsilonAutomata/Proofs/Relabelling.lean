import EpsilonAutomata.Proofs.Invariant.Consistency
import EpsilonAutomata.Combination
import EpsilonAutomata.Assembly.Lemmas

/-!
Automata that differ in their states only.

A map that keeps the order of the states keeps the place of each state among them
(`StateSet.rank_map`), and so whatever is determined by these places. An automaton that is numbered
anew is the image of the automaton under such a map (`Automaton.sameInOrder_of_renumbered`).
-/

namespace EpsilonAutomata

/-! ## Sets -/

namespace StateSet

/-- The map keeps the order of the members. -/
def Ascends (states : StateSet) (transform : StateId → StateId) : Prop :=
  ∀ lower ∈ states, ∀ upper ∈ states, lower < upper → transform lower < transform upper

variable {states : StateSet} {transform : StateId → StateId} {state other : StateId}

theorem Ascends.lt_iff (ascends : states.Ascends transform) (member : state ∈ states)
    (otherMember : other ∈ states) : transform state < transform other ↔ state < other := by
  constructor
  · intro imageLess
    rcases Nat.lt_trichotomy state.index other.index with less | equal | greater
    · exact less
    · cases StateId.eq_of_index_eq equal
      exact absurd imageLess (Nat.lt_irrefl _)
    · exact absurd imageLess (Nat.lt_asymm (ascends other otherMember state member greater))
  · exact ascends state member other otherMember

theorem toList_map (ascends : states.Ascends transform) :
    (states.map transform).toList = states.toList.map transform := by
  have ordered : (states.toList.map transform).Pairwise (· < ·) := by
    rw [List.pairwise_map]
    apply (ordered_toList states).imp_of_mem
    intro lower upper lowerListed upperListed less
    exact ascends lower (Std.ExtTreeSet.mem_toList.mp lowerListed) upper
      (Std.ExtTreeSet.mem_toList.mp upperListed) less
  apply toList_eq_of_ordered ordered
  intro image
  simp

theorem size_map (ascends : states.Ascends transform) :
    (states.map transform).size = states.size := by
  rw [← Std.ExtTreeSet.length_toList, toList_map ascends, List.length_map,
    Std.ExtTreeSet.length_toList]

theorem rank_map (ascends : states.Ascends transform) (member : state ∈ states) :
    (states.map transform).rank (transform state) = states.rank state := by
  rw [rank, rank, toList_map ascends, List.countP_map]
  apply List.countP_congr
  intro other listed
  have otherMember : other ∈ states := Std.ExtTreeSet.mem_toList.mp listed
  simp [ascends.lt_iff otherMember member]

end StateSet

/-! ## Automata -/

namespace Automaton

/-- The image of an automaton under a map of its states. -/
def relabel (automaton : Automaton) (transform : StateId → StateId) : Automaton where
  states := automaton.states.map transform
  alphabet := automaton.alphabet
  initial := transform automaton.initial
  accepting := automaton.accepting.map transform
  transitions := automaton.transitions.relabel transform

theorem WellFormed.relabel {automaton : Automaton} (wellFormed : automaton.WellFormed)
    (transform : StateId → StateId) : (automaton.relabel transform).WellFormed := by
  rcases wellFormed_iff_consistent.mp wellFormed with ⟨initial, consistent⟩
  have images : ∀ state ∈ automaton.states, transform state ∈ automaton.states.map transform :=
    fun state member => StateSet.mem_map.mpr ⟨state, member, rfl⟩
  exact wellFormed_iff_consistent.mpr
    ⟨images automaton.initial initial, consistent.image images⟩

/-- The other automaton has other states in the same order, and is the same in all else. -/
def SameInOrder (automaton other : Automaton) : Prop :=
  ∃ transform, automaton.states.Ascends transform ∧ other = automaton.relabel transform

variable {automaton other result : Automaton} {start : StateId}

theorem relabel_id (automaton : Automaton) : automaton.relabel id = automaton := by
  apply ext
  case states => simp [relabel]
  case accepting => simp [relabel]
  case transitions =>
    intro edge
    rw [relabel, Transitions.mem_relabel]
    constructor
    · intro image
      rcases image with ⟨original, member, rfl⟩
      exact member
    · exact fun member => ⟨edge, member, rfl⟩
  all_goals rfl

theorem SameInOrder.refl (automaton : Automaton) : automaton.SameInOrder automaton :=
  ⟨id, fun _ _ _ _ less => less, (relabel_id automaton).symm⟩

theorem SameInOrder.alphabet_eq (same : automaton.SameInOrder other) :
    other.alphabet = automaton.alphabet := by
  rcases same with ⟨transform, _, rfl⟩
  rfl

theorem SameInOrder.stateCount_eq (same : automaton.SameInOrder other) :
    other.stateCount = automaton.stateCount := by
  rcases same with ⟨transform, ascends, rfl⟩
  exact StateSet.size_map ascends

theorem SameInOrder.wellFormed (same : automaton.SameInOrder other)
    (wellFormed : automaton.WellFormed) : other.WellFormed := by
  rcases same with ⟨transform, _, rfl⟩
  exact wellFormed.relabel transform

end Automaton

/-! ## Numbering anew -/

namespace Assembly

variable {assembly : Assembly} {source : Automaton} {state : StateId}
  (room : assembly.next.index + source.stateCount ≤ 4294967296)

include room

theorem ascends_copy : source.states.Ascends (assembly.copy source) := by
  intro lower lowerMember upper upperMember less
  rw [StateId.lt_iff, index_copy room lowerMember, index_copy room upperMember]
  exact Nat.add_lt_add_left (StateSet.rank_lt_rank lowerMember upperMember less) _

/-- The block is filled with copies. -/
theorem exists_copy_iff :
    (∃ original ∈ source.states, assembly.copy source original = state) ↔
      assembly.next.index ≤ state.index ∧
        state.index < assembly.next.index + source.stateCount := by
  constructor
  · intro found
    rcases found with ⟨original, member, rfl⟩
    exact copy_mem_block room member
  · intro range
    have position : state.index - assembly.next.index < source.states.size :=
      Nat.sub_lt_left_of_lt_add range.1 range.2
    rcases StateSet.exists_rank_eq position with ⟨original, member, rank⟩
    refine ⟨original, member, StateId.eq_of_index_eq ?_⟩
    rw [index_copy room member, rank, Nat.add_sub_cancel' range.1]

end Assembly

namespace Automaton

variable {automaton result : Automaton} {start : StateId}

theorem renumbered_eq_some_iff :
    automaton.renumbered start = some result ↔
      (0 < automaton.stateCount ∧ automaton.stateCount < 4294967296 ∧
        start.index + (automaton.stateCount - 1) < 4294967296) ∧
      ((Assembly.startingAt start).embed automaton true).2.finish
        ((Assembly.startingAt start).copy automaton automaton.initial) = result := by
  rw [renumbered]
  split
  · next inRange => simp only [inRange, and_self, true_and, Option.some.injEq]; rfl
  · next outOfRange => simp only [outOfRange, false_and, reduceCtorEq]

/-- A block on its own is the image of the automaton. -/
theorem finish_embed_startingAt (room : start.index + automaton.stateCount ≤ 4294967296) :
    ((Assembly.startingAt start).embed automaton true).2.finish
        ((Assembly.startingAt start).copy automaton automaton.initial) =
      automaton.relabel ((Assembly.startingAt start).copy automaton) := by
  apply ext
  case states =>
    intro state
    rw [Assembly.states_finish, Assembly.mem_states_embed room, relabel, StateSet.mem_map,
      Assembly.exists_copy_iff room]
    exact or_iff_right Std.ExtTreeSet.not_mem_empty
  case alphabet =>
    rw [Assembly.alphabet_finish, Assembly.alphabet_embed]
    exact automaton.alphabet.empty_union
  case initial => rfl
  case accepting =>
    intro state
    rw [Assembly.accepting_finish, Assembly.mem_accepting_embed, relabel, StateSet.mem_map,
      and_iff_right rfl]
    exact or_iff_right Std.ExtTreeSet.not_mem_empty
  case transitions =>
    intro edge
    rw [Assembly.transitions_finish, Assembly.mem_transitions_embed, relabel,
      Transitions.mem_relabel]
    exact or_iff_right (Transitions.not_mem_empty edge)

theorem sameInOrder_of_renumbered (succeeds : automaton.renumbered start = some result) :
    automaton.SameInOrder result := by
  rcases renumbered_eq_some_iff.mp succeeds with ⟨inRange, rfl⟩
  have room : (Assembly.startingAt start).next.index + automaton.stateCount ≤ 4294967296 := by
    change start.index + automaton.stateCount ≤ 4294967296
    omega
  exact ⟨_, Assembly.ascends_copy room, finish_embed_startingAt room⟩

end Automaton

end EpsilonAutomata
