import EpsilonAutomata.Transitions

/-!
Edges grouped by their source and then by their label.

A table has a row for a state, and a row has an entry for a label. Unlike transitions, a table can
hold a row without entries and an entry without targets, and it does as soon as no targets are added
for a label that is new (`EdgeTable.not_noEmptyRow_add_empty`). The table of some transitions, to
which their edges are added row by row, has neither (`Transitions.stores_table`). It keeps its edges
in step with theirs as long as each change of the one is made to the other as well and no label is
added without targets (`EdgeTable.Stores.add` and the like).
-/

namespace EpsilonAutomata

/-- What leaves a state. -/
abbrev EdgeRow := Std.ExtTreeMap Symbol StateSet

abbrev EdgeTable := Std.ExtTreeMap StateId EdgeRow

namespace EdgeTable

variable {table left right : EdgeTable} {transitions : Transitions} {source other state : StateId}
  {symbol label : Symbol} {added : StateSet}

/-- The states that a label leads to: none if there is no row or no entry. -/
def targets (table : EdgeTable) (source : StateId) (symbol : Symbol) : StateSet :=
  (table[source]?.bind (·[symbol]?)).getD ∅

/-- Adds targets for a label of a state. Row and entry are made if there are none. -/
def add (table : EdgeTable) (source : StateId) (symbol : Symbol) (added : StateSet) : EdgeTable :=
  table.alter source fun row =>
    some <| (row.getD ∅).alter symbol fun entry => some (entry.getD ∅ ∪ added)

/-- Only the rows of the members of a set. -/
def restrictSources (table : EdgeTable) (states : StateSet) : EdgeTable :=
  table.filter fun source _ => states.contains source

theorem mem_targets_iff :
    state ∈ table.targets source symbol ↔
      ∃ row states, table[source]? = some row ∧ row[symbol]? = some states ∧ state ∈ states := by
  rw [targets]
  cases table[source]? with
  | none => simp
  | some row => cases entry : row[symbol]? <;> simp [entry]

theorem getElem?_add :
    (table.add source symbol added)[other]? =
      if source = other then
        some ((table[source]?.getD ∅).alter symbol fun entry => some (entry.getD ∅ ∪ added))
      else table[other]? := by
  simp [add, Std.ExtTreeMap.getElem?_alter]

theorem mem_targets_add :
    state ∈ (table.add source symbol added).targets other label ↔
      state ∈ table.targets other label ∨ source = other ∧ symbol = label ∧ state ∈ added := by
  rw [targets, targets, getElem?_add]
  by_cases sameSource : source = other
  · subst sameSource
    by_cases sameLabel : symbol = label
    · subst sameLabel
      cases table[source]? <;> simp [Std.ExtTreeSet.mem_union_iff]
    · cases table[source]? <;> simp [Std.ExtTreeMap.getElem?_alter, sameLabel]
  · simp [sameSource]

theorem getElem?_restrictSources {states : StateSet} :
    (table.restrictSources states)[source]? =
      if source ∈ states then table[source]? else none := by
  rw [restrictSources, Std.ExtTreeMap.getElem?_filter']
  by_cases member : source ∈ states
  · cases table[source]? <;> simp [member]
  · cases table[source]? <;> simp [member]

/-! ## Empty rows -/

/-- Some label leaves each state that has a row, and each label with an entry leads somewhere. -/
structure NoEmptyRow (table : EdgeTable) : Prop where
  row_ne_empty : ∀ (source : StateId) (row : EdgeRow), table[source]? = some row → row ≠ ∅
  entry_ne_empty : ∀ (source : StateId) (row : EdgeRow) (symbol : Symbol) (targets : StateSet),
    table[source]? = some row → row[symbol]? = some targets → targets ≠ ∅

theorem noEmptyRow_empty : NoEmptyRow ∅ where
  row_ne_empty source row stored := by simp at stored
  entry_ne_empty source row symbol targets stored := by simp at stored

namespace NoEmptyRow

/-- The row of a state is known by what its labels lead to. -/
theorem entry_eq (noEmptyRow : table.NoEmptyRow) {row : EdgeRow}
    (stored : table[source]? = some row) (symbol : Symbol) :
    row[symbol]? =
      if table.targets source symbol = ∅ then none else some (table.targets source symbol) := by
  have entry : table.targets source symbol = row[symbol]?.getD ∅ := by simp [targets, stored]
  rw [entry]
  cases found : row[symbol]? with
  | none => simp
  | some targets =>
      have nonempty := noEmptyRow.entry_ne_empty source row symbol targets stored found
      simp [nonempty]

theorem exists_mem_targets (noEmptyRow : table.NoEmptyRow) {row : EdgeRow}
    (stored : table[source]? = some row) : ∃ symbol state, state ∈ table.targets source symbol := by
  have nonempty := noEmptyRow.row_ne_empty source row stored
  rw [ne_eq, Std.ExtTreeMap.eq_empty_iff_forall_not_mem] at nonempty
  rcases Classical.not_forall_not.mp nonempty with ⟨symbol, member⟩
  rw [Std.ExtTreeMap.mem_iff_isSome_getElem?, noEmptyRow.entry_eq stored] at member
  have someTarget : table.targets source symbol ≠ ∅ := by
    intro isEmpty
    simp [isEmpty] at member
  exact ⟨symbol, StateSet.exists_mem_of_ne_empty someTarget⟩

/-- Tables without empty rows are equal if they have the same edges. -/
theorem ext (leftNoEmptyRow : left.NoEmptyRow) (rightNoEmptyRow : right.NoEmptyRow)
    (same : ∀ source symbol, left.targets source symbol = right.targets source symbol) :
    left = right := by
  apply Std.ExtTreeMap.ext_getElem?
  intro source
  cases leftStored : left[source]? with
  | none =>
      cases rightStored : right[source]? with
      | none => rfl
      | some row =>
          rcases rightNoEmptyRow.exists_mem_targets rightStored with ⟨symbol, state, member⟩
          rw [← same] at member
          simp [targets, leftStored] at member
  | some leftRow =>
      cases rightStored : right[source]? with
      | none =>
          rcases leftNoEmptyRow.exists_mem_targets leftStored with ⟨symbol, state, member⟩
          rw [same] at member
          simp [targets, rightStored] at member
      | some rightRow =>
          apply congrArg some
          apply Std.ExtTreeMap.ext_getElem?
          intro symbol
          rw [leftNoEmptyRow.entry_eq leftStored, rightNoEmptyRow.entry_eq rightStored, same]

theorem add (noEmptyRow : table.NoEmptyRow) (nonempty : added ≠ ∅) :
    (table.add source symbol added).NoEmptyRow where
  row_ne_empty other row stored := by
    rw [getElem?_add] at stored
    split at stored
    · rcases Option.some.inj stored with rfl
      intro isEmpty
      have entry := congrArg (·[symbol]?) isEmpty
      simp at entry
    · exact noEmptyRow.row_ne_empty other row stored
  entry_ne_empty other row label targets stored found := by
    rw [getElem?_add] at stored
    split at stored
    · rcases Option.some.inj stored with rfl
      rw [Std.ExtTreeMap.getElem?_alter] at found
      split at found
      · rcases Option.some.inj found with rfl
        exact StateSet.union_ne_empty nonempty
      · cases before : table[source]? with
        | none => simp [before] at found
        | some row =>
            rw [before] at found
            exact noEmptyRow.entry_ne_empty source row label targets before found
    · exact noEmptyRow.entry_ne_empty other row label targets stored found

/-- Rows may be left out and may change places. -/
theorem of_rows (noEmptyRow : table.NoEmptyRow)
    (rows : ∀ (source : StateId) (row : EdgeRow), left[source]? = some row →
      ∃ origin : StateId, table[origin]? = some row) : left.NoEmptyRow where
  row_ne_empty source row stored := by
    rcases rows source row stored with ⟨origin, before⟩
    exact noEmptyRow.row_ne_empty origin row before
  entry_ne_empty source row symbol targets stored found := by
    rcases rows source row stored with ⟨origin, before⟩
    exact noEmptyRow.entry_ne_empty origin row symbol targets before found

end NoEmptyRow

/-- Without targets a label that is new gets an empty entry. -/
theorem not_noEmptyRow_add_empty (unknown : table.targets source symbol = ∅) :
    ¬(table.add source symbol ∅).NoEmptyRow := by
  intro noEmptyRow
  have stored := @getElem?_add table source source symbol ∅
  rw [if_pos rfl] at stored
  have entry := noEmptyRow.entry_eq stored symbol
  have noTargets : (table.add source symbol ∅).targets source symbol = ∅ := by
    apply StateSet.ext
    intro state
    rw [mem_targets_add, unknown]
    simp
  rw [if_pos noTargets, Std.ExtTreeMap.getElem?_alter, if_pos Std.ReflCmp.compare_self] at entry
  cases entry

/-! ## The table of some transitions -/

/-- The table has the edges of the transitions, and no empty rows. -/
structure Stores (table : EdgeTable) (transitions : Transitions) : Prop where
  noEmptyRow : table.NoEmptyRow
  mem_targets : ∀ edge : Edge,
    edge.target ∈ table.targets edge.source edge.symbol ↔ edge ∈ transitions

namespace Stores

theorem unique (leftStores : left.Stores transitions) (rightStores : right.Stores transitions) :
    left = right :=
  leftStores.noEmptyRow.ext rightStores.noEmptyRow fun source symbol => StateSet.ext fun target =>
    (leftStores.mem_targets ⟨source, symbol, target⟩).trans
      (rightStores.mem_targets ⟨source, symbol, target⟩).symm

theorem add (stores : table.Stores transitions) (nonempty : added ≠ ∅) :
    (table.add source symbol added).Stores (transitions.add source symbol added) where
  noEmptyRow := stores.noEmptyRow.add nonempty
  mem_targets edge := by
    rw [mem_targets_add, stores.mem_targets, Transitions.mem_add]

/-- Where labels without targets are left out, any targets may be added. -/
theorem ite_isEmpty_add (stores : table.Stores transitions) (source : StateId) (symbol : Symbol)
    (added : StateSet) :
    EdgeTable.Stores (if added.isEmpty then table else table.add source symbol added)
      (transitions.add source symbol added) := by
  cases isEmpty : added.isEmpty with
  | true => rwa [if_pos rfl, Transitions.add_of_isEmpty isEmpty]
  | false =>
      have nonempty : added ≠ ∅ := fun equal => by
        rw [equal] at isEmpty
        cases isEmpty
      exact stores.add nonempty

theorem restrictSources (stores : table.Stores transitions) (states : StateSet) :
    (table.restrictSources states).Stores (transitions.restrictSources states) where
  noEmptyRow := by
    apply stores.noEmptyRow.of_rows
    intro source row stored
    rw [getElem?_restrictSources] at stored
    exact ⟨source, (Option.ite_none_right_eq_some.mp stored).2⟩
  mem_targets edge := by
    rw [Transitions.mem_restrictSources, ← stores.mem_targets, mem_targets_iff, mem_targets_iff,
      getElem?_restrictSources]
    by_cases member : edge.source ∈ states
    · simp [member]
    · simp [member]

/-- A state has a row in the table just if a label leaves it. -/
theorem getElem?_eq_none_iff (stores : table.Stores transitions) :
    table[source]? = none ↔ transitions.leaving source = [] := by
  constructor
  · intro noRow
    rw [List.eq_nil_iff_forall_not_mem]
    rintro ⟨symbol, targets⟩ leaves
    have entry := Transitions.mem_leaving_iff.mp leaves
    rcases StateSet.exists_mem_of_ne_empty (StateRelation.mem_entries_iff.mp entry).1 with
      ⟨target, member⟩
    have stored := (stores.mem_targets ⟨source, symbol, target⟩).mpr
      (StateRelation.mem_targets_of_entry entry member)
    rcases mem_targets_iff.mp stored with ⟨row, _, hasRow, _⟩
    rw [noRow] at hasRow
    cases hasRow
  · intro noLabels
    cases stored : table[source]? with
    | none => rfl
    | some row =>
        rcases stores.noEmptyRow.exists_mem_targets stored with ⟨symbol, target, member⟩
        have edge := (stores.mem_targets ⟨source, symbol, target⟩).mp member
        exact absurd rfl (Transitions.source_ne_of_leaving_eq_nil noLabels edge)

/-- Rows are added to the table as they are to the transitions, as long as they have targets. -/
theorem foldl_add {rows : List (Move × StateSet)} (stores : table.Stores transitions)
    (nonempty : ∀ row ∈ rows, row.2 ≠ ∅) :
    EdgeTable.Stores (rows.foldl (fun table row => table.add row.1.source row.1.symbol row.2) table)
      (transitions.insertMany rows) := by
  induction rows generalizing table transitions with
  | nil => exact stores
  | cons row rows induction =>
      rcases List.forall_mem_cons.mp nonempty with ⟨rowNonempty, restNonempty⟩
      exact induction (stores.add rowNonempty) restNonempty

end Stores

theorem stores_empty : Stores ∅ ∅ where
  noEmptyRow := noEmptyRow_empty
  mem_targets edge := by simp [targets]

end EdgeTable

namespace Transitions

/-- The edges as a table, to which each row is added. -/
def table (transitions : Transitions) : EdgeTable :=
  transitions.entries.foldl (fun table row => table.add row.1.source row.1.symbol row.2) ∅

theorem stores_table (transitions : Transitions) : transitions.table.Stores transitions := by
  have nonempty : ∀ row ∈ transitions.entries, row.2 ≠ ∅ := fun row entry =>
    (StateRelation.mem_entries_iff.mp entry).1
  have stores := EdgeTable.stores_empty.foldl_add nonempty
  rwa [← StateRelation.ofRows, StateRelation.ofRows_entries] at stores

/-- Each table with these edges and without empty rows is the same. -/
theorem stores_iff_eq_table {transitions : Transitions} {table : EdgeTable} :
    table.Stores transitions ↔ table = transitions.table := by
  constructor
  · exact fun stores => stores.unique transitions.stores_table
  · intro equal
    rw [equal]
    exact transitions.stores_table

/-- Grouped by source and then by label, the edges leave no row and no entry empty. -/
def NoEmptyRow (transitions : Transitions) : Prop :=
  transitions.table.NoEmptyRow

theorem noEmptyRow (transitions : Transitions) : transitions.NoEmptyRow :=
  transitions.stores_table.noEmptyRow

end Transitions

end EpsilonAutomata
