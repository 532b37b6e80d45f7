import EpsilonAutomata.Draft.Lemmas
import EpsilonAutomata.Record

/-!
Loading a record is constructing what it describes.

A record is loaded by collecting everything that is wrong with its lists and then assembling them;
its edits check and change a draft one at a time. The two ways agree: the edits run to their end
just if nothing is wrong, and then they end in the assembled automaton
(`Draft.performAll_edits_eq_ok_iff`). Each list of the record contributes one stretch of the run.
-/

namespace EpsilonAutomata

namespace Record

variable {record : Record}

theorem repeats_eq_nil_iff {seen : StateSet} {states : List StateId} :
    repeats seen states = [] ↔ states.Nodup ∧ ∀ state ∈ states, state ∉ seen := by
  induction states generalizing seen with
  | nil => simp [repeats]
  | cons state states induction =>
      rw [repeats, List.nodup_cons, List.forall_mem_cons]
      by_cases known : state ∈ seen
      · simp [known]
      · have fresh : (∀ other ∈ states, other ∉ seen.insert state) ↔
            state ∉ states ∧ ∀ other ∈ states, other ∉ seen := by
          simp only [StateSet.mem_insert, not_or, imp_and, forall_and]
          exact and_congr_left' ⟨fun distinct member => distinct state member rfl,
            fun absent other member equal => absent (equal ▸ member)⟩
        have notContained : ¬seen.contains state = true := known
        rw [if_neg notContained, induction, fresh]
        simp only [known, not_false_eq_true, true_and, and_comm, and_assoc]

theorem mem_addLabel {alphabet : Alphabet} {row : RecordRow} {character : Char} :
    character ∈ addLabel alphabet row ↔
      character ∈ alphabet ∨ row.targets ≠ [] ∧ row.symbol = .literal character := by
  rw [addLabel]
  cases row.targets with
  | nil => simp
  | cons target targets => simp [or_comm]

theorem mem_foldl_addLabel {rows : List RecordRow} {alphabet : Alphabet} {character : Char} :
    character ∈ rows.foldl addLabel alphabet ↔
      character ∈ alphabet ∨ ∃ row ∈ rows, row.targets ≠ [] ∧ row.symbol = .literal character := by
  induction rows generalizing alphabet with
  | nil => simp
  | cons row rows induction =>
      rw [List.foldl_cons, induction, mem_addLabel, or_assoc]
      simp

theorem mem_fullAlphabet {character : Char} :
    character ∈ record.fullAlphabet ↔
      character ∈ record.alphabet ∨
        ∃ row ∈ record.transitions, row.targets ≠ [] ∧ row.symbol = .literal character := by
  rw [fullAlphabet, mem_foldl_addLabel, Alphabet.mem_ofList]

/-- A row without targets might as well be added. -/
theorem addRow_eq_add (transitions : Transitions) (row : RecordRow) :
    addRow transitions row = transitions.add row.source row.symbol (.ofList row.targets) := by
  rw [addRow, ← StateSet.isEmpty_ofList, Transitions.ite_isEmpty_add]

/-- To pass over the rows without targets changes nothing. -/
theorem foldl_addRow_eq_insertMany (transitions : Transitions) (rows : List RecordRow) :
    rows.foldl addRow transitions =
      transitions.insertMany (rows.map fun row =>
        (⟨row.source, row.symbol⟩, .ofList row.targets)) := by
  have sameStep : addRow = fun transitions row =>
      transitions.add row.source row.symbol (.ofList row.targets) :=
    funext fun transitions => funext fun row => addRow_eq_add transitions row
  rw [StateRelation.insertMany, List.foldl_map, sameStep]
  rfl

/-- Nothing is wrong if no state is listed twice and all other lists refer to listed states. -/
theorem violations_eq_nil_iff :
    record.violations = [] ↔
      repeats ∅ record.states = [] ∧ record.initial ∈ StateSet.ofList record.states ∧
        (∀ state ∈ record.accepting, state ∈ StateSet.ofList record.states) ∧
        ∀ row ∈ record.transitions, row.source ∈ StateSet.ofList record.states ∧
          ∀ target ∈ row.targets, target ∈ StateSet.ofList record.states := by
  have known : (∀ state ∈ record.mentions, state ∈ StateSet.ofList record.states) ↔
      record.initial ∈ StateSet.ofList record.states ∧
        (∀ state ∈ record.accepting, state ∈ StateSet.ofList record.states) ∧
        ∀ row ∈ record.transitions, row.source ∈ StateSet.ofList record.states ∧
          ∀ target ∈ row.targets, target ∈ StateSet.ofList record.states := by
    simp only [mentions, List.cons_append, List.forall_mem_cons, List.forall_mem_append,
      List.forall_mem_flatMap]
  rw [← known, violations, List.append_eq_nil_iff, List.map_eq_nil_iff, List.map_eq_nil_iff]
  simp [List.filter_eq_nil_iff]

theorem toAutomaton_eq_ok_iff {automaton : Automaton} :
    record.toAutomaton = .ok automaton ↔ record.violations = [] ∧ automaton = record.assemble := by
  unfold toAutomaton
  split
  · next valid =>
      rw [Except.ok.injEq, and_iff_right valid]
      exact eq_comm
  · next invalid =>
      constructor
      · intro impossible
        cases impossible
      · exact fun parts => absurd parts.1 invalid

end Record

namespace Draft

variable {draft result : Draft}

/-! ## One list of the record at a time -/

/-- The states seen before are the states the draft has. -/
theorem performAll_addState_eq_ok_iff {states : List StateId} :
    draft.performAll (states.map .addState) = .ok result ↔
      Record.repeats draft.states states = [] ∧
        result = { draft with states := draft.states.insertMany states } := by
  induction states generalizing draft with
  | nil => simp [performAll_nil_eq_ok_iff, Record.repeats]
  | cons state states induction =>
      rw [List.map_cons, performAll_cons_eq_ok_iff, Record.repeats, Std.ExtTreeSet.insertMany_cons]
      by_cases seen : state ∈ draft.states
      · simp [perform, addState_eq_ok_iff, seen]
      · simp [perform, addState_eq_ok_iff, seen, induction, ensureState]

theorem performAll_declare_eq_ok_iff {characters : List Char} :
    draft.performAll (characters.map .declare) = .ok result ↔
      result = { draft with alphabet := draft.alphabet.insertMany characters } := by
  induction characters generalizing draft with
  | nil => simp [performAll_nil_eq_ok_iff]
  | cons character characters induction =>
      rw [List.map_cons, performAll_cons_eq_ok_iff, Std.ExtTreeSet.insertMany_cons]
      simp [perform, induction, declare]

theorem performAll_addAccepting_eq_ok_iff {states : List StateId} :
    draft.performAll (states.map .addAccepting) = .ok result ↔
      (∀ state ∈ states, state ∈ draft.states) ∧
        result = { draft with accepting := draft.accepting.insertMany states } := by
  induction states generalizing draft with
  | nil => simp [performAll_nil_eq_ok_iff]
  | cons state states induction =>
      rw [List.map_cons, performAll_cons_eq_ok_iff, Std.ExtTreeSet.insertMany_cons]
      simp [perform, addAccepting_eq_ok_iff, induction, and_assoc]

/-- An open alphabet refuses no row. -/
theorem performAll_addTransition_eq_ok_iff {rows : List RecordRow}
    (openAlphabet : draft.closedAlphabet = false) :
    draft.performAll (rows.map fun row =>
        .addTransition row.source row.symbol (.ofList row.targets)) = .ok result ↔
      (∀ row ∈ rows, row.source ∈ draft.states ∧ ∀ target ∈ row.targets, target ∈ draft.states) ∧
        result =
          { draft with
            alphabet := rows.foldl Record.addLabel draft.alphabet
            transitions := rows.foldl Record.addRow draft.transitions } := by
  induction rows generalizing draft with
  | nil => simp [performAll_nil_eq_ok_iff]
  | cons row rows induction =>
      have admitted : draft.foreign? row.symbol = none := by
        simp [foreign?_eq_none_iff, openAlphabet]
      have step (next : Draft) :
          draft.perform (.addTransition row.source row.symbol (.ofList row.targets)) = .ok next ↔
            (row.source ∈ draft.states ∧ ∀ target ∈ row.targets, target ∈ draft.states) ∧
              next = draft.join row.source row.symbol (.ofList row.targets) := by
        change draft.addTransition row.source row.symbol (.ofList row.targets) = .ok next ↔ _
        rw [addTransition_eq_ok_iff]
        simp only [admitted, StateSet.mem_ofList, true_and, and_assoc]
      have rest := @induction (draft.join row.source row.symbol (.ofList row.targets)) openAlphabet
      rw [List.map_cons, performAll_cons_eq_ok_iff]
      simp only [step, and_assoc, exists_and_left, exists_eq_left, List.forall_mem_cons]
      rw [rest]
      simp only [join, StateSet.isEmpty_ofList, List.foldl_cons, Record.addRow_eq_add]
      rfl

/-! ## The whole record -/

theorem performAll_edits_eq_ok_iff {record : Record} :
    blank.performAll record.edits = .ok result ↔
      record.violations = [] ∧ result = .ofAutomaton record.assemble := by
  have listed : StateSet.ofList record.states = blank.states.insertMany record.states :=
    Std.ExtTreeSet.ofList_eq_insertMany_empty
  have assembled : ofAutomaton record.assemble =
      { states := blank.states.insertMany record.states
        alphabet := record.transitions.foldl Record.addLabel
          (blank.alphabet.insertMany record.alphabet)
        closedAlphabet := blank.closedAlphabet
        initial := some record.initial
        accepting := blank.accepting.insertMany record.accepting
        transitions := record.transitions.foldl Record.addRow blank.transitions } := by
    simp only [ofAutomaton, Record.assemble, Record.fullAlphabet, StateSet.ofList, Alphabet.ofList,
      Std.ExtTreeSet.ofList_eq_insertMany_empty]
    rfl
  rw [Record.violations_eq_nil_iff, listed, assembled]
  -- Each stretch determines the draft after it, so that no draft in between is left to be found.
  simp only [Record.edits, performAll_append_eq_ok_iff, performAll_addState_eq_ok_iff,
    performAll_declare_eq_ok_iff, performAll_cons_eq_ok_iff, perform, setInitial_eq_ok_iff,
    performAll_addAccepting_eq_ok_iff, and_assoc, exists_and_left, exists_eq_left]
  rw [performAll_addTransition_eq_ok_iff rfl]
  rfl

end Draft

/-- A record is accepted just if each of its edits succeeds in turn on a blank draft, and then the
loaded automaton is the one that the draft builds. -/
theorem Record.toAutomaton_eq_build_edits (record : Record) :
    ((∃ automaton, record.toAutomaton = .ok automaton) ↔
      ∃ draft, Draft.blank.performAll record.edits = .ok draft) ∧
    ∀ automaton, record.toAutomaton = .ok automaton ↔
      ∃ draft, Draft.blank.performAll record.edits = .ok draft ∧ draft.build = .ok automaton := by
  simp only [toAutomaton_eq_ok_iff, Draft.performAll_edits_eq_ok_iff]
  constructor
  · simp
  · intro automaton
    constructor
    · intro loaded
      rcases loaded with ⟨valid, rfl⟩
      exact ⟨_, ⟨valid, rfl⟩, Draft.build_ofAutomaton record.assemble⟩
    · intro built
      rcases built with ⟨_, ⟨valid, rfl⟩, built⟩
      rw [Draft.build_ofAutomaton, Except.ok.injEq] at built
      exact ⟨valid, built.symm⟩

end EpsilonAutomata
