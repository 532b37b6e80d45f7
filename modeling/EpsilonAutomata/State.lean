import Std.Data.ExtTreeSet

/-!
States and finite sets of states.

A state is known by its index alone, and there are `2 ^ 32` of them. A set of states is kept in
ascending order: listing it is deterministic, and two sets with the same members are equal
(`StateSet.ext`).
-/

namespace EpsilonAutomata

structure StateId where
  index : Nat
  index_lt : index < 4294967296 := by decide

namespace StateId

theorem eq_of_index_eq {left right : StateId} (equal : left.index = right.index) :
    left = right := by
  cases left
  cases right
  cases equal
  rfl

theorem index_inj {left right : StateId} : left.index = right.index ↔ left = right :=
  ⟨eq_of_index_eq, congrArg index⟩

instance : DecidableEq StateId := fun left right =>
  decidable_of_iff (left.index = right.index) ⟨eq_of_index_eq, congrArg index⟩

/-! States are ordered by index. -/

instance : Ord StateId := ⟨compareOn StateId.index⟩

instance : Std.TransOrd StateId :=
  inferInstanceAs (Std.TransCmp (compareOn StateId.index))

instance : Std.LawfulEqOrd StateId where
  eq_of_compare equal := eq_of_index_eq (Nat.compare_eq_eq.mp equal)

instance : LT StateId := ⟨fun left right => left.index < right.index⟩

instance : LE StateId := ⟨fun left right => left.index ≤ right.index⟩

instance (left right : StateId) : Decidable (left < right) :=
  inferInstanceAs (Decidable (left.index < right.index))

instance (left right : StateId) : Decidable (left ≤ right) :=
  inferInstanceAs (Decidable (left.index ≤ right.index))

theorem lt_iff {left right : StateId} : left < right ↔ left.index < right.index := Iff.rfl

theorem le_iff {left right : StateId} : left ≤ right ↔ left.index ≤ right.index := Iff.rfl

theorem compare_eq_lt_iff {left right : StateId} :
    compare left right = .lt ↔ left < right :=
  Nat.compare_eq_lt

/-- The state with the given index, if there is one. -/
def ofIndex? (index : Nat) : Option StateId :=
  if inRange : index < 4294967296 then some ⟨index, inRange⟩ else none

theorem ofIndex?_eq_some_iff {index : Nat} {state : StateId} :
    ofIndex? index = some state ↔ state.index = index := by
  constructor
  · intro found
    unfold ofIndex? at found
    split at found
    · cases found
      rfl
    · cases found
  · intro equal
    cases equal
    exact dif_pos state.index_lt

theorem ofIndex?_eq_none_iff {index : Nat} : ofIndex? index = none ↔ 4294967296 ≤ index := by
  rw [ofIndex?, dite_eq_right_iff, ← Nat.not_lt]
  exact forall_congr' fun _ => iff_of_false nofun not_false

/-- The state of index zero, where numbering starts. -/
def first : StateId := ⟨0, by decide⟩

theorem first_eq_iff {state : StateId} : first = state ↔ state.index = 0 :=
  index_inj.symm.trans eq_comm

/-- The last state there is. -/
def last : StateId := ⟨4294967295, by decide⟩

/-- The next state, or none after the last one. -/
def next? (state : StateId) : Option StateId :=
  ofIndex? (state.index + 1)

theorem next?_eq_some_iff {state following : StateId} :
    state.next? = some following ↔ following.index = state.index + 1 :=
  ofIndex?_eq_some_iff

theorem next?_eq_none_iff {state : StateId} : state.next? = none ↔ state.index = 4294967295 := by
  have inRange := state.index_lt
  rw [next?, ofIndex?_eq_none_iff]
  omega

/-- The next state, except that the last state is followed by itself. -/
def next (state : StateId) : StateId :=
  state.next?.getD state

theorem index_next {state : StateId} (room : state.index + 1 < 4294967296) :
    state.next.index = state.index + 1 := by
  rw [next, next?, ofIndex?, dif_pos room]
  rfl

theorem next_last : last.next = last := rfl

/-- A state is written as the letter `q` and its index. -/
def display (state : StateId) : String :=
  "q" ++ toString state.index

example : (⟨7, by decide⟩ : StateId).display = "q7" := rfl

end StateId

/-! ## Sets of states -/

abbrev StateSet := Std.ExtTreeSet StateId

namespace StateSet

theorem ext {left right : StateSet} (same : ∀ state, state ∈ left ↔ state ∈ right) :
    left = right :=
  Std.ExtTreeSet.ext_mem same

def ofList (states : List StateId) : StateSet :=
  Std.ExtTreeSet.ofList states

@[simp] theorem mem_ofList {states : List StateId} {state : StateId} :
    state ∈ ofList states ↔ state ∈ states := by
  simp [ofList]

theorem ofList_toList (states : StateSet) : ofList states.toList = states := by
  apply ext
  simp

theorem exists_mem_of_ne_empty {states : StateSet} (nonempty : states ≠ ∅) :
    ∃ state, state ∈ states :=
  Classical.not_forall_not.mp fun none =>
    nonempty (Std.ExtTreeSet.eq_empty_iff_forall_not_mem.mpr none)

theorem union_ne_empty {states added : StateSet} (nonempty : added ≠ ∅) : states ∪ added ≠ ∅ := by
  rcases exists_mem_of_ne_empty nonempty with ⟨state, member⟩
  exact Std.ExtTreeSet.ne_empty_of_mem (Std.ExtTreeSet.mem_union_iff.mpr (.inr member))

theorem isEmpty_ofList (states : List StateId) : (ofList states).isEmpty = states.isEmpty := by
  cases states with
  | nil => rfl
  | cons state states =>
      rw [List.isEmpty_cons, Bool.eq_false_iff, ne_eq, Std.ExtTreeSet.isEmpty_iff]
      have member : state ∈ ofList (state :: states) := mem_ofList.mpr List.mem_cons_self
      exact Std.ExtTreeSet.ne_empty_of_mem member

@[simp] theorem mem_insert {states : StateSet} {added state : StateId} :
    state ∈ states.insert added ↔ added = state ∨ state ∈ states := by
  simp

theorem insert_of_mem {states : StateSet} {state : StateId} (member : state ∈ states) :
    states.insert state = states := by
  apply ext
  intro other
  rw [mem_insert, or_iff_right_of_imp fun equal => equal ▸ member]

@[simp] theorem mem_singleton {only state : StateId} :
    state ∈ ({only} : StateSet) ↔ only = state := by
  simp [Std.ExtTreeSet.singleton_eq_insert]

theorem ordered_toList (states : StateSet) : states.toList.Pairwise (· < ·) :=
  Std.ExtTreeSet.ordered_toList.imp StateId.compare_eq_lt_iff.mp

theorem nodup_of_ordered {list : List StateId} (ordered : list.Pairwise (· < ·)) : list.Nodup :=
  ordered.imp fun {left right} less equal => by
    cases equal
    exact Nat.lt_irrefl _ less

theorem nodup_toList (states : StateSet) : states.toList.Nodup :=
  nodup_of_ordered (ordered_toList states)

/-- In a list in ascending order the first hit is the smallest. -/
theorem find?_eq_some_iff_of_ordered {list : List StateId} (ordered : list.Pairwise (· < ·))
    {test : StateId → Bool} {state : StateId} :
    list.find? test = some state ↔
      state ∈ list ∧ test state = true ∧ ∀ other ∈ list, other < state → test other = false := by
  rw [List.find?_eq_some_iff_append]
  constructor
  · intro found
    rcases found with ⟨hit, before, after, rfl, missed⟩
    refine ⟨List.mem_append_right before List.mem_cons_self, hit, ?_⟩
    intro other listed less
    rcases List.mem_append.mp listed with earlier | later
    · simpa using missed other earlier
    · have below := (List.pairwise_append.mp ordered).2.1
      rcases List.mem_cons.mp later with rfl | later
      · exact absurd less (Nat.lt_irrefl _)
      · exact absurd less (Nat.lt_asymm ((List.pairwise_cons.mp below).1 other later))
  · intro smallest
    rcases smallest with ⟨listed, hit, missed⟩
    rcases List.append_of_mem listed with ⟨before, after, rfl⟩
    refine ⟨hit, before, after, rfl, ?_⟩
    intro other earlier
    have less := (List.pairwise_append.mp ordered).2.2 other earlier state List.mem_cons_self
    simpa using missed other (List.mem_append_left _ earlier) less

theorem toList_eq_of_ordered {states : StateSet} {list : List StateId}
    (ordered : list.Pairwise (· < ·)) (same : ∀ state, state ∈ states ↔ state ∈ list) :
    states.toList = list := by
  have sameMembers : states.toList.Perm list := by
    rw [List.perm_ext_iff_of_nodup (nodup_toList states) (nodup_of_ordered ordered)]
    intro state
    rw [Std.ExtTreeSet.mem_toList, same]
  apply sameMembers.eq_of_pairwise _ (ordered_toList states) ordered
  intro left right _ _ less greater
  exact absurd less (Nat.lt_asymm greater)

/-- States in ascending order, none of them below `least`, leave no room for more than the states
from there on. -/
theorem add_length_le_of_ordered {list : List StateId} (ordered : list.Pairwise (· < ·))
    {least : Nat} (above : ∀ state ∈ list, least ≤ state.index) (inRange : least ≤ 4294967296) :
    least + list.length ≤ 4294967296 := by
  induction list generalizing least with
  | nil => simpa using inRange
  | cons head tail induction =>
      rcases List.pairwise_cons.mp ordered with ⟨headLess, tailOrdered⟩
      have headAbove := above head List.mem_cons_self
      have headInRange := head.index_lt
      have tailAbove : ∀ state ∈ tail, least + 1 ≤ state.index := fun state member =>
        Nat.lt_of_le_of_lt headAbove (headLess state member)
      have tailLength := induction tailOrdered tailAbove (by omega)
      rw [List.length_cons]
      omega

theorem size_le (states : StateSet) : states.size ≤ 4294967296 := by
  have length := @add_length_le_of_ordered states.toList (ordered_toList states) 0
    (fun _ _ => Nat.zero_le _) (Nat.zero_le _)
  rwa [Nat.zero_add, Std.ExtTreeSet.length_toList] at length

/-- The image of a set. -/
def map (transform : StateId → StateId) (states : StateSet) : StateSet :=
  ofList (states.toList.map transform)

@[simp] theorem mem_map {transform : StateId → StateId} {states : StateSet} {image : StateId} :
    image ∈ map transform states ↔ ∃ state ∈ states, transform state = image := by
  simp [map]

theorem exists_mem_map {transform : StateId → StateId} {states : StateSet}
    {property : StateId → Prop} :
    (∃ image ∈ map transform states, property image) ↔
      ∃ state ∈ states, property (transform state) := by
  simp only [mem_map]
  constructor
  · intro found
    rcases found with ⟨image, preimage, holds⟩
    rcases preimage with ⟨state, member, rfl⟩
    exact ⟨state, member, holds⟩
  · intro found
    rcases found with ⟨state, member, holds⟩
    exact ⟨transform state, ⟨state, member, rfl⟩, holds⟩

/-- The union of the sets that the members of a set stand for. -/
def bind (states : StateSet) (family : StateId → StateSet) : StateSet :=
  states.foldl (fun union state => union ∪ family state) ∅

theorem mem_foldl_union {list : List StateId} {family : StateId → StateSet} {start : StateSet}
    {member : StateId} :
    member ∈ list.foldl (fun union state => union ∪ family state) start ↔
      member ∈ start ∨ ∃ state ∈ list, member ∈ family state := by
  induction list generalizing start with
  | nil => simp
  | cons head tail induction =>
      rw [List.foldl_cons, induction, Std.ExtTreeSet.mem_union_iff, or_assoc]
      simp

@[simp] theorem mem_bind {states : StateSet} {family : StateId → StateSet} {member : StateId} :
    member ∈ bind states family ↔ ∃ state ∈ states, member ∈ family state := by
  rw [bind, Std.ExtTreeSet.foldl_eq_foldl_toList, mem_foldl_union]
  simp

/-- Whether two sets have a member in common. -/
def meets (left right : StateSet) : Bool :=
  !(left ∩ right).isEmpty

theorem meets_iff {left right : StateSet} :
    meets left right ↔ ∃ state, state ∈ left ∧ state ∈ right := by
  rw [meets, Bool.not_eq_true', Bool.eq_false_iff, ne_eq, Std.ExtTreeSet.isEmpty_inter_iff]
  simp

/-- The number of members below a state, so the position of a member in ascending order. -/
def rank (states : StateSet) (state : StateId) : Nat :=
  states.toList.countP (· < state)

/-- In a list in ascending order each state has as many states below it as before it. -/
theorem countP_lt_getElem {list : List StateId} (ordered : list.Pairwise (· < ·)) (position : Nat)
    (inRange : position < list.length) : list.countP (· < list[position]) = position := by
  induction list generalizing position with
  | nil => cases inRange
  | cons head tail induction =>
      rcases List.pairwise_cons.mp ordered with ⟨headLess, tailOrdered⟩
      cases position with
      | zero =>
          rw [List.countP_eq_zero]
          intro state member
          rcases List.mem_cons.mp member with equal | member
          · simp [equal, StateId.lt_iff]
          · have less := headLess state member
            simp only [StateId.lt_iff, List.getElem_cons_zero, decide_eq_true_eq] at less ⊢
            omega
      | succ position =>
          have inTail : position < tail.length := by simpa using inRange
          rw [List.getElem_cons_succ, List.countP_cons, induction tailOrdered position inTail]
          have less := headLess tail[position] (List.getElem_mem inTail)
          simp [less]

theorem rank_getElem {states : StateSet} {position : Nat}
    (inRange : position < states.toList.length) :
    states.rank states.toList[position] = position :=
  countP_lt_getElem (ordered_toList states) position inRange

/-- Every member has its position. -/
theorem exists_getElem_eq {states : StateSet} {state : StateId} (member : state ∈ states) :
    ∃ (position : Nat) (inRange : position < states.toList.length),
      states.toList[position] = state ∧ states.rank state = position := by
  rcases List.mem_iff_getElem.mp (Std.ExtTreeSet.mem_toList.mpr member) with
    ⟨position, inRange, rfl⟩
  exact ⟨position, inRange, rfl, rank_getElem inRange⟩

theorem rank_lt_size {states : StateSet} {state : StateId} (member : state ∈ states) :
    states.rank state < states.size := by
  rcases exists_getElem_eq member with ⟨position, inRange, _, rank⟩
  rwa [rank, ← Std.ExtTreeSet.length_toList]

theorem eq_of_rank_eq {states : StateSet} {left right : StateId} (leftMember : left ∈ states)
    (rightMember : right ∈ states) (equal : states.rank left = states.rank right) :
    left = right := by
  rcases exists_getElem_eq leftMember with ⟨position, _, leftEqual, leftRank⟩
  rcases exists_getElem_eq rightMember with ⟨other, _, rightEqual, rightRank⟩
  have samePosition : position = other := leftRank.symm.trans (equal.trans rightRank)
  subst samePosition
  exact leftEqual.symm.trans rightEqual

theorem exists_rank_eq {states : StateSet} {position : Nat} (inRange : position < states.size) :
    ∃ state ∈ states, states.rank state = position := by
  rw [← Std.ExtTreeSet.length_toList] at inRange
  exact ⟨states.toList[position], Std.ExtTreeSet.mem_toList.mp (List.getElem_mem inRange),
    rank_getElem inRange⟩

theorem rank_lt_rank {states : StateSet} {lower upper : StateId} (lowerMember : lower ∈ states)
    (upperMember : upper ∈ states) (less : lower < upper) :
    states.rank lower < states.rank upper := by
  rcases exists_getElem_eq lowerMember with ⟨position, inRange, lowerEqual, lowerRank⟩
  rcases exists_getElem_eq upperMember with ⟨other, otherInRange, upperEqual, upperRank⟩
  rw [lowerRank, upperRank]
  apply Nat.lt_of_not_le
  intro behind
  rcases Nat.eq_or_lt_of_le behind with rfl | before
  · exact Nat.lt_irrefl _ (upperEqual ▸ lowerEqual ▸ less)
  · have ordered := List.pairwise_iff_getElem.mp (ordered_toList states) other position
      otherInRange inRange before
    rw [upperEqual, lowerEqual] at ordered
    exact Nat.lt_asymm less ordered

/-- There are as many states below an index as the index says. -/
theorem size_eq_of_mem_iff {states : StateSet} {count : Nat} (inRange : count ≤ 4294967296)
    (below : ∀ state, state ∈ states ↔ state.index < count) : states.size = count := by
  have distinct : (states.toList.map StateId.index).Nodup :=
    List.pairwise_map.mpr ((ordered_toList states).imp fun less => Nat.ne_of_lt less)
  have sameMembers : (states.toList.map StateId.index).Perm (List.range count) := by
    rw [List.perm_ext_iff_of_nodup distinct List.nodup_range]
    intro index
    rw [List.mem_map, List.mem_range]
    constructor
    · intro listed
      rcases listed with ⟨state, member, rfl⟩
      exact (below state).mp (Std.ExtTreeSet.mem_toList.mp member)
    · intro less
      let state : StateId := ⟨index, Nat.lt_of_lt_of_le less inRange⟩
      exact ⟨state, Std.ExtTreeSet.mem_toList.mpr ((below state).mpr less), rfl⟩
  have lengths := sameMembers.length_eq
  rwa [List.length_map, Std.ExtTreeSet.length_toList, List.length_range] at lengths

/-- States separated by commas, in ascending order. -/
def display (states : StateSet) : String :=
  ", ".intercalate (states.toList.map StateId.display)

end StateSet

end EpsilonAutomata
