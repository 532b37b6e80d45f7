import EpsilonAutomata.Assembly

/-!
What allocation and embedding do to an assembly.

As long as there are enough states, a block holds the states that come next in order, and the copy
of a state is as far from the start of the block as there are states below it in the automaton
(`Assembly.index_copy`).
-/

namespace EpsilonAutomata

namespace Assembly

/-! ## Allocation -/

theorem getElem?_allocateCopies_of_not_mem {members : List StateId}
    {copies : Numbering × Assembly} {state : StateId} (absent : state ∉ members) :
    (members.foldl allocateCopy copies).1[state]? = copies.1[state]? := by
  induction members generalizing copies with
  | nil => rfl
  | cons head tail induction =>
      rw [List.foldl_cons, induction (fun member => absent (List.mem_cons_of_mem _ member))]
      have different : head ≠ state := fun equal => absent (equal ▸ List.mem_cons_self)
      simp [allocateCopy, Std.ExtTreeMap.getElem?_insert, different]

/-- Copies are numbered in the order of the list. -/
theorem index_allocateCopies {members : List StateId} (distinct : members.Nodup)
    {copies : Numbering × Assembly}
    (room : copies.2.next.index + members.length ≤ 4294967296) {position : Nat}
    (inRange : position < members.length) :
    ∃ copy, (members.foldl allocateCopy copies).1[members[position]]? = some copy ∧
      copy.index = copies.2.next.index + position := by
  induction members generalizing copies position with
  | nil => cases inRange
  | cons head tail induction =>
      rcases List.nodup_cons.mp distinct with ⟨headAbsent, tailDistinct⟩
      rw [List.length_cons] at room inRange
      cases position with
      | zero =>
          refine ⟨copies.2.next, ?_, rfl⟩
          rw [List.foldl_cons, List.getElem_cons_zero,
            getElem?_allocateCopies_of_not_mem headAbsent]
          simp [allocateCopy]
      | succ position =>
          have inTail : position < tail.length := by omega
          have next : (allocateCopy copies head).2.next.index = copies.2.next.index + 1 :=
            StateId.index_next (by omega)
          rcases induction tailDistinct (by rw [next]; omega) inTail with ⟨copy, found, index⟩
          refine ⟨copy, found, ?_⟩
          rw [index, next]
          omega

theorem states_allocateCopies {members : List StateId} {copies : Numbering × Assembly}
    (room : copies.2.next.index + members.length ≤ 4294967296) {state : StateId} :
    state ∈ (members.foldl allocateCopy copies).2.states ↔
      state ∈ copies.2.states ∨
        copies.2.next.index ≤ state.index ∧
          state.index < copies.2.next.index + members.length := by
  induction members generalizing copies with
  | nil =>
      simp only [List.foldl_nil, List.length_nil, Nat.add_zero]
      constructor
      · exact .inl
      · intro either
        rcases either with member | impossible
        · exact member
        · omega
  | cons head tail induction =>
      rw [List.length_cons] at room ⊢
      have newStates : (allocateCopy copies head).2.states = copies.2.states.insert copies.2.next :=
        rfl
      cases tail with
      | nil =>
          simp only [List.foldl_cons, List.foldl_nil, newStates, StateSet.mem_insert,
            List.length_nil]
          constructor
          · intro either
            rcases either with equal | member
            · cases equal
              exact .inr (by omega)
            · exact .inl member
          · intro either
            rcases either with member | range
            · exact .inr member
            · exact .inl (StateId.eq_of_index_eq (by omega))
      | cons second tail =>
          rw [List.length_cons] at room
          have next : (allocateCopy copies head).2.next.index = copies.2.next.index + 1 :=
            StateId.index_next (by omega)
          rw [List.foldl_cons, induction (by rw [next, List.length_cons]; omega), newStates, next,
            StateSet.mem_insert]
          constructor
          · intro either
            rcases either with (equal | member) | range
            · cases equal
              exact .inr (by omega)
            · exact .inl member
            · exact .inr (by omega)
          · intro either
            rcases either with member | range
            · exact .inl (.inr member)
            · by_cases first : state.index = copies.2.next.index
              · exact .inl (.inl (StateId.eq_of_index_eq first.symm))
              · exact .inr (by omega)

theorem allocateCopies_rest {members : List StateId} {copies : Numbering × Assembly} :
    (members.foldl allocateCopy copies).2.alphabet = copies.2.alphabet ∧
      (members.foldl allocateCopy copies).2.accepting = copies.2.accepting ∧
      (members.foldl allocateCopy copies).2.transitions = copies.2.transitions := by
  induction members generalizing copies with
  | nil => exact ⟨rfl, rfl, rfl⟩
  | cons head tail induction =>
      rw [List.foldl_cons]
      exact @induction (allocateCopy copies head)

/-- The state handed out after a number of others. -/
theorem index_next_allocateCopies {members : List StateId} {copies : Numbering × Assembly}
    (room : copies.2.next.index + members.length < 4294967296) :
    (members.foldl allocateCopy copies).2.next.index =
      copies.2.next.index + members.length := by
  induction members generalizing copies with
  | nil => rfl
  | cons head tail induction =>
      rw [List.length_cons] at room ⊢
      have next : (allocateCopy copies head).2.next.index = copies.2.next.index + 1 :=
        StateId.index_next (by omega)
      rw [List.foldl_cons, induction (by rw [next]; omega), next]
      omega

/-! ## Embedding -/

variable {assembly : Assembly} {source : Automaton} {keepAccepting : Bool}

/-- The copy of each state of an automaton that is embedded. -/
def copy (assembly : Assembly) (source : Automaton) : StateId → StateId :=
  (assembly.allocateEach source.states.toList).1.copy

theorem index_copy (room : assembly.next.index + source.stateCount ≤ 4294967296) {state : StateId}
    (member : state ∈ source.states) :
    (assembly.copy source state).index = assembly.next.index + source.states.rank state := by
  rcases StateSet.exists_getElem_eq member with ⟨position, inRange, rfl, rank⟩
  have enough : assembly.next.index + source.states.toList.length ≤ 4294967296 := by
    rw [Std.ExtTreeSet.length_toList]
    exact room
  rcases @index_allocateCopies _ (StateSet.nodup_toList source.states) (∅, assembly) enough
    position inRange with ⟨fresh, found, index⟩
  rw [rank, copy, allocateEach, Numbering.copy, Std.ExtTreeMap.getD_eq_getD_getElem?, found]
  exact index

/-- Copies lie in the block. -/
theorem copy_mem_block (room : assembly.next.index + source.stateCount ≤ 4294967296)
    {state : StateId} (member : state ∈ source.states) :
    assembly.next.index ≤ (assembly.copy source state).index ∧
      (assembly.copy source state).index < assembly.next.index + source.stateCount := by
  have below : source.states.rank state < source.stateCount := StateSet.rank_lt_size member
  rw [index_copy room member]
  omega

/-- The states handed out before are no copies. -/
theorem avoids_copy (room : assembly.next.index + source.stateCount ≤ 4294967296)
    {earlier : StateId} (before : earlier.index < assembly.next.index) :
    source.Avoids (assembly.copy source) earlier := by
  intro state member equal
  have block := copy_mem_block room member
  rw [equal] at block
  omega

theorem separates_copy (room : assembly.next.index + source.stateCount ≤ 4294967296) :
    source.Separates (assembly.copy source) := by
  intro left leftMember right rightMember equal
  apply StateSet.eq_of_rank_eq leftMember rightMember
  have indices := congrArg StateId.index equal
  rw [index_copy room leftMember, index_copy room rightMember] at indices
  exact Nat.add_left_cancel indices

/-- The state handed out after a block, if there is one. -/
theorem index_next_embed (room : assembly.next.index + source.stateCount < 4294967296) :
    (assembly.embed source keepAccepting).2.next.index =
      assembly.next.index + source.stateCount := by
  have enough : assembly.next.index + source.states.toList.length < 4294967296 := by
    rw [Std.ExtTreeSet.length_toList]
    exact room
  have index := @index_next_allocateCopies source.states.toList (∅, assembly) enough
  rw [Std.ExtTreeSet.length_toList] at index
  exact index

theorem mem_states_embed (room : assembly.next.index + source.stateCount ≤ 4294967296)
    {state : StateId} :
    state ∈ (assembly.embed source keepAccepting).2.states ↔
      state ∈ assembly.states ∨
        assembly.next.index ≤ state.index ∧
          state.index < assembly.next.index + source.stateCount := by
  have enough : assembly.next.index + source.states.toList.length ≤ 4294967296 := by
    rw [Std.ExtTreeSet.length_toList]
    exact room
  have states := @states_allocateCopies source.states.toList (∅, assembly) enough state
  rw [Std.ExtTreeSet.length_toList] at states
  exact states

theorem mem_transitions_embed {edge : Edge} :
    edge ∈ (assembly.embed source keepAccepting).2.transitions ↔
      edge ∈ assembly.transitions ∨
        ∃ copied ∈ source.transitions, copied.relabel (assembly.copy source) = edge := by
  have kept : (assembly.allocateEach source.states.toList).2.transitions = assembly.transitions :=
    allocateCopies_rest.2.2
  change edge ∈ StateRelation.union (assembly.allocateEach source.states.toList).2.transitions
    (source.transitions.relabel (assembly.copy source)) ↔ _
  rw [Transitions.mem_union, Transitions.mem_relabel, kept]

theorem alphabet_embed :
    (assembly.embed source keepAccepting).2.alphabet = assembly.alphabet ∪ source.alphabet := by
  have kept : (assembly.allocateEach source.states.toList).2.alphabet = assembly.alphabet :=
    allocateCopies_rest.1
  change (assembly.allocateEach source.states.toList).2.alphabet ∪ source.alphabet = _
  rw [kept]

theorem mem_accepting_embed {state : StateId} :
    state ∈ (assembly.embed source keepAccepting).2.accepting ↔
      state ∈ assembly.accepting ∨ keepAccepting = true ∧
        ∃ original ∈ source.accepting, assembly.copy source original = state := by
  have kept : (assembly.allocateEach source.states.toList).2.accepting = assembly.accepting :=
    allocateCopies_rest.2.1
  change state ∈ (if keepAccepting then
    (assembly.allocateEach source.states.toList).2.accepting ∪
      source.accepting.map (assembly.copy source)
    else (assembly.allocateEach source.states.toList).2.accepting) ↔ _
  rw [kept]
  cases keepAccepting with
  | false => simp
  | true => simp [Std.ExtTreeSet.mem_union_iff]

/-! ## Two blocks

A block that follows another is apart from it and from everything before both. That the automaton
in the second block has a state is needed to know that the first block does not use up the states:
after the last state there is no next one to start the second block with. -/

section

variable {left right : Automaton} (nonempty : 0 < right.stateCount)
  (room : assembly.next.index + left.stateCount + right.stateCount ≤ 4294967296)

include nonempty room

theorem room_second :
    (assembly.embed left keepAccepting).2.next.index + right.stateCount ≤ 4294967296 := by
  rw [index_next_embed (by omega)]
  exact room

theorem avoids_copy_second {earlier : StateId} (before : earlier.index < assembly.next.index) :
    right.Avoids ((assembly.embed left keepAccepting).2.copy right) earlier := by
  apply avoids_copy (room_second nonempty room)
  rw [index_next_embed (by omega)]
  omega

theorem avoids_copy_second_copy {state : StateId} (member : state ∈ left.states) :
    right.Avoids ((assembly.embed left keepAccepting).2.copy right) (assembly.copy left state) := by
  apply avoids_copy (room_second nonempty room)
  rw [index_next_embed (by omega)]
  exact (copy_mem_block (by omega) member).2

theorem avoids_copy_copy_second {state : StateId} (member : state ∈ right.states) :
    left.Avoids (assembly.copy left) ((assembly.embed left keepAccepting).2.copy right state) := by
  intro other otherMember equal
  exact avoids_copy_second_copy nonempty room otherMember state member equal.symm

theorem index_copy_second {state : StateId} (member : state ∈ right.states) :
    ((assembly.embed left keepAccepting).2.copy right state).index =
      assembly.next.index + left.stateCount + right.states.rank state := by
  rw [index_copy (room_second nonempty room) member, index_next_embed (by omega)]

theorem mem_states_second {keepSecond : Bool} {state : StateId} :
    state ∈ ((assembly.embed left keepAccepting).2.embed right keepSecond).2.states ↔
      state ∈ assembly.states ∨
        assembly.next.index ≤ state.index ∧
          state.index < assembly.next.index + left.stateCount + right.stateCount := by
  rw [mem_states_embed (room_second nonempty room), mem_states_embed (by omega),
    index_next_embed (by omega), or_assoc]
  apply or_congr_right
  omega

end

/-! ## Epsilon edges and accepting states -/

@[simp] theorem states_addEpsilon (assembly : Assembly) (start target : StateId) :
    (assembly.addEpsilon start target).states = assembly.states := rfl

@[simp] theorem alphabet_addEpsilon (assembly : Assembly) (start target : StateId) :
    (assembly.addEpsilon start target).alphabet = assembly.alphabet := rfl

@[simp] theorem accepting_addEpsilon (assembly : Assembly) (start target : StateId) :
    (assembly.addEpsilon start target).accepting = assembly.accepting := rfl

theorem mem_transitions_addEpsilon {assembly : Assembly} {start target : StateId} {edge : Edge} :
    edge ∈ (assembly.addEpsilon start target).transitions ↔
      edge ∈ assembly.transitions ∨ ⟨start, .epsilon, target⟩ = edge :=
  Transitions.mem_addEdge

theorem mem_transitions_foldl_addEpsilon {assembly : Assembly} {starts : List StateId}
    {target : StateId} {edge : Edge} :
    edge ∈ (starts.foldl (fun assembly start => assembly.addEpsilon start target)
        assembly).transitions ↔
      edge ∈ assembly.transitions ∨ ∃ start ∈ starts, ⟨start, .epsilon, target⟩ = edge := by
  induction starts generalizing assembly with
  | nil => simp
  | cons head tail induction =>
      rw [List.foldl_cons, induction, mem_transitions_addEpsilon]
      simp [or_assoc]

theorem mem_transitions_addEpsilons {assembly : Assembly} {starts : StateSet} {target : StateId}
    {edge : Edge} :
    edge ∈ (assembly.addEpsilons starts target).transitions ↔
      edge ∈ assembly.transitions ∨ ∃ start ∈ starts, ⟨start, .epsilon, target⟩ = edge := by
  rw [addEpsilons, Std.ExtTreeSet.foldl_eq_foldl_toList, mem_transitions_foldl_addEpsilon]
  simp

/-- Epsilon edges are all that is added. -/
theorem addEpsilons_eq (assembly : Assembly) (starts : StateSet) (target : StateId) :
    assembly.addEpsilons starts target =
      { assembly with transitions := (assembly.addEpsilons starts target).transitions } := by
  rw [addEpsilons, Std.ExtTreeSet.foldl_eq_foldl_toList]
  induction starts.toList generalizing assembly with
  | nil => rfl
  | cons head tail induction => exact induction (assembly.addEpsilon head target)

@[simp] theorem states_addEpsilons (assembly : Assembly) (starts : StateSet) (target : StateId) :
    (assembly.addEpsilons starts target).states = assembly.states := by
  rw [addEpsilons_eq]

@[simp] theorem alphabet_addEpsilons (assembly : Assembly) (starts : StateSet)
    (target : StateId) : (assembly.addEpsilons starts target).alphabet = assembly.alphabet := by
  rw [addEpsilons_eq]

@[simp] theorem accepting_addEpsilons (assembly : Assembly) (starts : StateSet)
    (target : StateId) : (assembly.addEpsilons starts target).accepting = assembly.accepting := by
  rw [addEpsilons_eq]

@[simp] theorem states_setAccepting (assembly : Assembly) (state : StateId) :
    (assembly.setAccepting state).states = assembly.states := rfl

@[simp] theorem alphabet_setAccepting (assembly : Assembly) (state : StateId) :
    (assembly.setAccepting state).alphabet = assembly.alphabet := rfl

@[simp] theorem accepting_setAccepting (assembly : Assembly) (state : StateId) :
    (assembly.setAccepting state).accepting = assembly.accepting.insert state := rfl

@[simp] theorem transitions_setAccepting (assembly : Assembly) (state : StateId) :
    (assembly.setAccepting state).transitions = assembly.transitions := rfl

/-! ## The finished automaton -/

@[simp] theorem states_finish (assembly : Assembly) (initial : StateId) :
    (assembly.finish initial).states = assembly.states := rfl

@[simp] theorem alphabet_finish (assembly : Assembly) (initial : StateId) :
    (assembly.finish initial).alphabet = assembly.alphabet := rfl

@[simp] theorem accepting_finish (assembly : Assembly) (initial : StateId) :
    (assembly.finish initial).accepting = assembly.accepting := rfl

@[simp] theorem transitions_finish (assembly : Assembly) (initial : StateId) :
    (assembly.finish initial).transitions = assembly.transitions := rfl

end Assembly

end EpsilonAutomata
