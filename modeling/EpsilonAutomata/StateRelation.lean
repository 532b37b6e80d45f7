import Std.Data.ExtTreeMap
import EpsilonAutomata.State

/-!
Finite relations between keys and states.

A relation is stored by rows: a key with the set of states related to it. No stored row is empty,
so a relation is determined by the pairs it holds (`StateRelation.ext`), and every operation below
is described by what it does to `targets`.
-/

namespace EpsilonAutomata

structure StateRelation (Key : Type) [Ord Key] [Std.TransOrd Key] where
  rows : Std.ExtTreeMap Key StateSet
  no_empty_row : ∀ key : Key, rows[key]? ≠ some ∅

namespace StateRelation

variable {Key : Type} [Ord Key] [Std.TransOrd Key]

/-- The states related to a key: the empty set if the key has no row. -/
def targets (relation : StateRelation Key) (key : Key) : StateSet :=
  relation.rows[key]?.getD ∅

/-- The row of a key, if it has one. -/
def row? (relation : StateRelation Key) (key : Key) : Option StateSet :=
  relation.rows[key]?

theorem row?_eq (relation : StateRelation Key) (key : Key) :
    relation.row? key = if relation.targets key = ∅ then none else some (relation.targets key) := by
  have nonempty := relation.no_empty_row key
  unfold row? targets
  cases stored : relation.rows[key]? with
  | none => simp
  | some states =>
      rw [stored] at nonempty
      have : states ≠ ∅ := fun isEmpty => nonempty (congrArg some isEmpty)
      simp [this]

/-- All rows, in ascending order of their keys. -/
def entries (relation : StateRelation Key) : List (Key × StateSet) :=
  relation.rows.toList

def empty : StateRelation Key :=
  ⟨∅, by simp⟩

instance : EmptyCollection (StateRelation Key) := ⟨empty⟩

instance : Inhabited (StateRelation Key) := ⟨∅⟩

@[simp] theorem targets_empty (key : Key) :
    (∅ : StateRelation Key).targets key = ∅ := by
  change ((∅ : Std.ExtTreeMap Key StateSet)[key]?).getD ∅ = ∅
  simp

/-- Only the rows whose key passes the test. -/
def filterKeys (relation : StateRelation Key) (selected : Key → Bool) : StateRelation Key where
  rows := relation.rows.filter fun key _ => selected key
  no_empty_row key isEmpty := by
    refine relation.no_empty_row key ?_
    have present := Std.ExtTreeMap.getElem?_eq_some_iff_exists_compare_eq_eq_and_mem_toList.mp isEmpty
    rcases present with ⟨stored, same, member⟩
    rw [Std.ExtTreeMap.toList_filter] at member
    exact Std.ExtTreeMap.getElem?_eq_some_iff_exists_compare_eq_eq_and_mem_toList.mpr
      ⟨stored, same, (List.mem_filter.mp member).1⟩

variable [Std.LawfulEqOrd Key]

theorem ext {left right : StateRelation Key}
    (same : ∀ key, left.targets key = right.targets key) : left = right := by
  have rowsEqual : left.rows = right.rows := by
    apply Std.ExtTreeMap.ext_getElem?
    intro key
    change left.row? key = right.row? key
    rw [row?_eq, row?_eq, same]
  cases left
  cases right
  cases rowsEqual
  rfl

instance : DecidableEq (StateRelation Key) := fun left right =>
  if rowsEqual : left.rows = right.rows then
    isTrue <| by
      cases left
      cases right
      cases rowsEqual
      rfl
  else
    isFalse fun equal => rowsEqual (congrArg rows equal)

theorem mem_entries_iff {relation : StateRelation Key} {key : Key} {states : StateSet} :
    (key, states) ∈ relation.entries ↔ states ≠ ∅ ∧ relation.targets key = states := by
  rw [entries, Std.ExtTreeMap.mem_toList_iff_getElem?_eq_some]
  change relation.row? key = some states ↔ _
  rw [row?_eq]
  split
  · next isEmpty =>
      constructor
      · intro impossible
        cases impossible
      · intro entry
        exact absurd (entry.2.symm.trans isEmpty) entry.1
  · next nonempty =>
      constructor
      · intro equal
        cases equal
        exact ⟨nonempty, rfl⟩
      · intro entry
        rw [entry.2]

theorem entry_of_mem_targets {relation : StateRelation Key} {key : Key} {state : StateId}
    (member : state ∈ relation.targets key) : (key, relation.targets key) ∈ relation.entries :=
  mem_entries_iff.mpr ⟨Std.ExtTreeSet.ne_empty_of_mem member, rfl⟩

theorem mem_targets_of_entry {relation : StateRelation Key} {key : Key} {states : StateSet}
    (entry : (key, states) ∈ relation.entries) {state : StateId} (member : state ∈ states) :
    state ∈ relation.targets key := by
  rcases mem_entries_iff.mp entry with ⟨_, rfl⟩
  exact member

/-! ## Adding rows -/

/-- Relates a key to further states. Adding no states leaves no trace. -/
def insert (relation : StateRelation Key) (key : Key) (added : StateSet) : StateRelation Key :=
  if isEmpty : added = ∅ then relation
  else
    { rows := relation.rows.alter key fun row => some (row.getD ∅ ∪ added)
      no_empty_row := by
        intro other
        rw [Std.ExtTreeMap.getElem?_alter]
        split
        · exact fun equal => StateSet.union_ne_empty isEmpty (Option.some.inj equal)
        · exact relation.no_empty_row other }

@[simp] theorem mem_targets_insert {relation : StateRelation Key} {key other : Key}
    {added : StateSet} {state : StateId} :
    state ∈ (relation.insert key added).targets other ↔
      state ∈ relation.targets other ∨ key = other ∧ state ∈ added := by
  unfold insert
  split
  · next isEmpty => simp [isEmpty]
  · unfold targets
    rw [Std.ExtTreeMap.getElem?_alter]
    by_cases equal : key = other
    · cases equal
      simp [Std.ExtTreeSet.mem_union_iff]
    · simp [equal]

def insertMany (relation : StateRelation Key) (rows : List (Key × StateSet)) :
    StateRelation Key :=
  rows.foldl (fun relation row => relation.insert row.1 row.2) relation

theorem mem_targets_insertMany {relation : StateRelation Key} {rows : List (Key × StateSet)}
    {key : Key} {state : StateId} :
    state ∈ (relation.insertMany rows).targets key ↔
      state ∈ relation.targets key ∨ ∃ row ∈ rows, row.1 = key ∧ state ∈ row.2 := by
  induction rows generalizing relation with
  | nil => simp [insertMany]
  | cons head tail induction =>
      have step := @induction (relation.insert head.1 head.2)
      unfold insertMany at step ⊢
      rw [List.foldl_cons, step, mem_targets_insert]
      simp [or_assoc]

def ofRows (rows : List (Key × StateSet)) : StateRelation Key :=
  insertMany ∅ rows

@[simp] theorem mem_targets_ofRows {rows : List (Key × StateSet)} {key : Key} {state : StateId} :
    state ∈ (ofRows rows).targets key ↔ ∃ row ∈ rows, row.1 = key ∧ state ∈ row.2 := by
  simp [ofRows, mem_targets_insertMany]

theorem ofRows_entries (relation : StateRelation Key) : ofRows relation.entries = relation := by
  apply ext
  intro key
  apply StateSet.ext
  intro state
  rw [mem_targets_ofRows]
  constructor
  · intro listed
    rcases listed with ⟨⟨rowKey, states⟩, entry, rfl, member⟩
    exact mem_targets_of_entry entry member
  · intro member
    exact ⟨(key, relation.targets key), entry_of_mem_targets member, rfl, member⟩

/-- All pairs of both relations. -/
def union (left right : StateRelation Key) : StateRelation Key :=
  left.insertMany right.entries

@[simp] theorem mem_targets_union {left right : StateRelation Key} {key : Key}
    {state : StateId} :
    state ∈ (left.union right).targets key ↔
      state ∈ left.targets key ∨ state ∈ right.targets key := by
  rw [union, mem_targets_insertMany]
  constructor
  · intro either
    rcases either with member | ⟨⟨rowKey, states⟩, entry, rfl, member⟩
    · exact .inl member
    · exact .inr (mem_targets_of_entry entry member)
  · intro either
    rcases either with member | member
    · exact .inl member
    · exact .inr ⟨(key, right.targets key), entry_of_mem_targets member, rfl, member⟩

/-! ## Choosing rows -/

theorem targets_filterKeys (relation : StateRelation Key) (selected : Key → Bool) (key : Key) :
    (relation.filterKeys selected).targets key =
      if selected key then relation.targets key else ∅ := by
  unfold filterKeys targets
  simp only
  rw [Std.ExtTreeMap.getElem?_filter']
  cases relation.rows[key]? <;> cases chosen : selected key <;> simp [Option.filter]

end StateRelation

end EpsilonAutomata
