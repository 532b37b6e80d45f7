import EpsilonAutomata.Draft.Lemmas

/-!
When each step of construction fails, and with which error.

Each step has one lemma that says both (`Draft.addState_eq_error_iff` and those after it). Where a
step makes several checks, each error implies that the checks before it passed.
-/

namespace EpsilonAutomata

namespace Draft

variable {draft : Draft} {state source old new : StateId} {symbol : Symbol} {targets : StateSet}
  {failure : ConstructionError}

/-! ## Checks -/

theorem missing?_cons (state : StateId) (wanted : List StateId) :
    draft.missing? (state :: wanted) = (draft.missing? [state]).or (draft.missing? wanted) := by
  simp only [missing?, List.find?_cons]
  cases draft.states.contains state with
  | false => rfl
  | true => rfl

theorem missing?_singleton (state : StateId) :
    draft.missing? [state] = if state ∈ draft.states then none else some state := by
  by_cases member : state ∈ draft.states
  · rw [if_pos member, missing?_singleton_eq_none_iff]
    exact member
  · have notContained : ¬draft.states.contains state = true := member
    rw [if_neg member, missing?, List.find?_cons_of_pos]
    rw [Bool.not_eq_true', Bool.eq_false_iff]
    exact notContained

/-- Of the members of a set the smallest one that the draft does not have is reported. -/
theorem missing?_toList_eq_some_iff {target : StateId} :
    draft.missing? targets.toList = some target ↔
      target ∈ targets ∧ target ∉ draft.states ∧
        ∀ other ∈ targets, other < target → other ∈ draft.states := by
  rw [missing?, StateSet.find?_eq_some_iff_of_ordered (StateSet.ordered_toList targets)]
  simp only [Std.ExtTreeSet.mem_toList, Bool.not_eq_true', Bool.eq_false_iff, ne_eq,
    Std.ExtTreeSet.contains_iff_mem, Decidable.not_not]

theorem missing?_cons_eq_some_iff {missing : StateId} :
    draft.missing? (source :: targets.toList) = some missing ↔
      source ∉ draft.states ∧ missing = source ∨
        source ∈ draft.states ∧ missing ∈ targets ∧ missing ∉ draft.states ∧
          ∀ other ∈ targets, other < missing → other ∈ draft.states := by
  rw [missing?_cons, missing?_singleton]
  by_cases known : source ∈ draft.states
  · simp only [known, if_true, Option.none_or, missing?_toList_eq_some_iff, not_true_eq_false,
      false_and, false_or, true_and]
  · simp only [known, if_false, Option.some_or, Option.some.injEq, not_false_eq_true, true_and,
      false_and, or_false]
    exact eq_comm

theorem foreign?_eq_some_iff {character : Char} :
    draft.foreign? symbol = some character ↔
      symbol = .literal character ∧ draft.closedAlphabet = true ∧ character ∉ draft.alphabet := by
  cases symbol with
  | epsilon => simp [foreign?]
  | literal letter =>
      simp only [foreign?, Option.ite_none_right_eq_some, Bool.and_eq_true, Bool.not_eq_true',
        Bool.eq_false_iff, ne_eq, Std.ExtTreeSet.contains_iff_mem, Option.some.injEq,
        Symbol.literal.injEq]
      constructor
      · intro refused
        rcases refused with ⟨⟨closed, unknown⟩, rfl⟩
        exact ⟨rfl, closed, unknown⟩
      · intro refused
        rcases refused with ⟨rfl, closed, unknown⟩
        exact ⟨⟨closed, unknown⟩, rfl⟩

/-! ## States -/

theorem addState_eq_error_iff :
    draft.addState state = .error failure ↔
      state ∈ draft.states ∧ failure = .duplicateState state := by
  by_cases known : state ∈ draft.states
  · simp only [addState, Std.ExtTreeSet.contains_iff_mem, known, if_true, Except.error.injEq,
      true_and]
    exact eq_comm
  · simp [addState, known]

theorem findUnused?_eq_none_iff {used : StateSet} {count start : Nat} :
    findUnused? used count start = none ↔
      ∀ state : StateId, start ≤ state.index → state.index < start + count → state ∈ used := by
  induction count generalizing start with
  | zero =>
      simp only [findUnused?, true_iff]
      omega
  | succ count induction =>
      rw [findUnused?]
      cases first : StateId.ofIndex? start with
      | none =>
          simp only [true_iff]
          intro state above _
          have outOfRange := StateId.ofIndex?_eq_none_iff.mp first
          exact absurd state.index_lt (by omega)
      | some candidate =>
          have index := StateId.ofIndex?_eq_some_iff.mp first
          by_cases taken : candidate ∈ used
          · simp only [Std.ExtTreeSet.contains_iff_mem.mpr taken, if_true, induction]
            constructor
            · intro rest state above below
              rcases Nat.eq_or_lt_of_le above with equal | later
              · exact StateId.eq_of_index_eq (index.trans equal) ▸ taken
              · exact rest state later (by omega)
            · intro all state later below
              exact all state (by omega) (by omega)
          · simp only [Std.ExtTreeSet.contains_iff_mem, taken, if_false, reduceCtorEq, false_iff]
            intro all
            exact taken (all candidate (by omega) (by omega))

/-- The states run out when all of them are in use. -/
theorem nextState?_eq_none_iff : draft.nextState? = none ↔ ∀ state, state ∈ draft.states := by
  rw [nextState?, Option.orElse_eq_orElse, Option.orElse_eq_or, Option.or_eq_none_iff,
    findUnused?_eq_none_iff, findUnused?_eq_none_iff]
  constructor
  · intro noneUnused state
    have inRange := state.index_lt
    rcases Nat.lt_or_ge state.index (min draft.states.size StateId.last.index) with below | above
    · exact noneUnused.2 state (Nat.zero_le _) (by omega)
    · exact noneUnused.1 state above (by omega)
  · intro all
    exact ⟨fun state _ _ => all state, fun state _ _ => all state⟩

theorem addNextState_eq_error_iff :
    draft.addNextState = .error failure ↔
      (∀ state, state ∈ draft.states) ∧ failure = .noStateLeft := by
  rw [← nextState?_eq_none_iff, addNextState]
  cases draft.nextState? with
  | none => simp [eq_comm]
  | some fresh => simp

theorem setInitial_eq_error_iff :
    draft.setInitial state = .error failure ↔
      state ∉ draft.states ∧ failure = .unknownState state := by
  rw [setInitial, missing?_singleton]
  by_cases known : state ∈ draft.states
  · simp [known]
  · simp [known, eq_comm]

theorem addAccepting_eq_error_iff :
    draft.addAccepting state = .error failure ↔
      state ∉ draft.states ∧ failure = .unknownState state := by
  rw [addAccepting, missing?_singleton]
  by_cases known : state ∈ draft.states
  · simp [known]
  · simp [known, eq_comm]

/-! ## Edges -/

theorem addTransition_eq_error_iff :
    draft.addTransition source symbol targets = .error failure ↔
      (∃ missing, draft.missing? (source :: targets.toList) = some missing ∧
        failure = .unknownState missing) ∨
      draft.missing? (source :: targets.toList) = none ∧
        ∃ character, draft.foreign? symbol = some character ∧
          failure = .foreignSymbol character := by
  rw [addTransition]
  cases draft.missing? (source :: targets.toList) with
  | some missing => simp [eq_comm]
  | none =>
      cases draft.foreign? symbol with
      | some character => simp [eq_comm]
      | none => cases targets.isEmpty <;> simp

/-! ## Renaming -/

theorem renameState_eq_error_iff :
    draft.renameState old new = .error failure ↔
      old ∉ draft.states ∧ failure = .unknownState old ∨
      old ∈ draft.states ∧ old ≠ new ∧ new ∈ draft.states ∧ failure = .duplicateState new := by
  rw [renameState, missing?_singleton]
  by_cases known : old ∈ draft.states
  · by_cases same : old = new
    · subst same
      simp [known]
    · by_cases taken : new ∈ draft.states
      · simp only [known, same, taken, Std.ExtTreeSet.contains_iff_mem, if_true, if_false,
          Except.error.injEq, not_true_eq_false, false_and, false_or, ne_eq, not_false_eq_true,
          true_and]
        exact eq_comm
      · simp [known, same, taken]
  · simp [known, eq_comm]

/-! ## Any step -/

theorem map_eq_error_iff {ε α β : Type} {transform : α → β} {outcome : Except ε α} {error : ε} :
    outcome.map transform = .error error ↔ outcome = .error error := by
  cases outcome with
  | error other => simp [Except.map]
  | ok value => simp [Except.map]

end Draft

end EpsilonAutomata
