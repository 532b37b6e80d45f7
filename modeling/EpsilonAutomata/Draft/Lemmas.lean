import EpsilonAutomata.Draft.Edit

/-!
When each step of construction succeeds, and what it does then.

A step succeeds under one condition and has one effect, and the lemma of a step says both
(`Draft.addState_eq_ok_iff` and those after it). What is said of runs, and of what is built from
drafts, rests on these lemmas and not on the definitions of the steps. A strict run of two lists of
edits in a row is a strict run of each.
-/

namespace EpsilonAutomata

namespace Draft

variable {draft next result : Draft} {state source old new : StateId} {symbol : Symbol}
  {targets : StateSet}

/-! ## Checks -/

theorem missing?_eq_none_iff {wanted : List StateId} :
    draft.missing? wanted = none ↔ ∀ state ∈ wanted, state ∈ draft.states := by
  simp [missing?, List.find?_eq_none]

theorem missing?_singleton_eq_none_iff :
    draft.missing? [state] = none ↔ state ∈ draft.states := by
  simp [missing?_eq_none_iff]

theorem missing?_cons_eq_none_iff :
    draft.missing? (source :: targets.toList) = none ↔
      source ∈ draft.states ∧ ∀ target ∈ targets, target ∈ draft.states := by
  simp [missing?_eq_none_iff]

theorem foreign?_eq_none_iff :
    draft.foreign? symbol = none ↔ (draft.closedAlphabet = true →
      ∀ character, symbol = .literal character → character ∈ draft.alphabet) := by
  cases symbol with
  | epsilon => simp [foreign?]
  | literal character => cases closed : draft.closedAlphabet <;> simp [foreign?, closed]

/-! ## States -/

theorem addState_eq_ok_iff :
    draft.addState state = .ok next ↔ state ∉ draft.states ∧ next = draft.ensureState state := by
  by_cases member : state ∈ draft.states
  · simp [addState, member]
  · simp only [addState, Std.ExtTreeSet.contains_iff_mem, member, if_false, not_false_eq_true,
      true_and, Except.ok.injEq]
    exact eq_comm

theorem addNextState_eq_ok_iff :
    draft.addNextState = .ok (state, next) ↔
      draft.nextState? = some state ∧ next = draft.ensureState state := by
  unfold addNextState
  cases draft.nextState? with
  | none => simp
  | some fresh =>
      simp only [Except.ok.injEq, Prod.mk.injEq, Option.some.injEq]
      constructor
      · intro equal
        rcases equal with ⟨rfl, rfl⟩
        exact ⟨rfl, rfl⟩
      · intro equal
        rcases equal with ⟨rfl, rfl⟩
        exact ⟨rfl, rfl⟩

theorem perform_addNextState_eq_ok_iff :
    draft.perform .addNextState = .ok next ↔
      ∃ state, draft.nextState? = some state ∧ next = draft.ensureState state := by
  change draft.addNextState.map Prod.snd = .ok next ↔ _
  simp only [← addNextState_eq_ok_iff]
  cases draft.addNextState with
  | error failure => simp [Except.map]
  | ok added => simp [Except.map, Prod.ext_iff]

theorem setInitial_eq_ok_iff :
    draft.setInitial state = .ok next ↔
      state ∈ draft.states ∧ next = { draft with initial := some state } := by
  rw [← missing?_singleton_eq_none_iff, setInitial]
  cases draft.missing? [state] <;> simp [eq_comm]

theorem addAccepting_eq_ok_iff :
    draft.addAccepting state = .ok next ↔
      state ∈ draft.states ∧ next = { draft with accepting := draft.accepting.insert state } := by
  rw [← missing?_singleton_eq_none_iff, addAccepting]
  cases draft.missing? [state] <;> simp [eq_comm]

/-! ## Edges -/

/-- The draft with edges that passed the checks. -/
def join (draft : Draft) (source : StateId) (symbol : Symbol) (targets : StateSet) : Draft :=
  { draft with
    alphabet := if targets.isEmpty then draft.alphabet else draft.alphabet.insertSymbol symbol
    transitions := draft.transitions.add source symbol targets }

theorem join_of_isEmpty (isEmpty : targets.isEmpty = true) :
    draft.join source symbol targets = draft := by
  rw [join, if_pos isEmpty, Transitions.add_of_isEmpty isEmpty]

theorem addTransition_eq_ok_iff :
    draft.addTransition source symbol targets = .ok next ↔
      source ∈ draft.states ∧ (∀ target ∈ targets, target ∈ draft.states) ∧
        draft.foreign? symbol = none ∧ next = draft.join source symbol targets := by
  rw [← and_assoc, ← missing?_cons_eq_none_iff, addTransition]
  cases draft.missing? (source :: targets.toList) with
  | some missing => simp
  | none =>
      cases draft.foreign? symbol with
      | some character => simp
      | none =>
          cases isEmpty : targets.isEmpty with
          | true => simp [join_of_isEmpty isEmpty, eq_comm]
          | false => simp [join, isEmpty, eq_comm]

/-! ## Renaming -/

theorem renameState_eq_ok_iff :
    draft.renameState old new = .ok next ↔
      old ∈ draft.states ∧
        (old = new ∧ next = draft ∨
          old ≠ new ∧ new ∉ draft.states ∧ next = draft.relabel (replace old new)) := by
  rw [← missing?_singleton_eq_none_iff, renameState]
  cases draft.missing? [old] with
  | some missing => simp
  | none =>
      by_cases same : old = new
      · simp [same, eq_comm]
      · by_cases taken : new ∈ draft.states
        · simp [same, taken]
        · simp only [same, taken, Std.ExtTreeSet.contains_iff_mem, if_false, false_and, false_or,
            not_false_eq_true, ne_eq, true_and, Except.ok.injEq]
          exact eq_comm

/-! ## Completion -/

/-- Completion forgets only whether the alphabet was closed. -/
theorem build_eq_ok_iff {automaton : Automaton} :
    draft.build = .ok automaton ↔ { draft with closedAlphabet := false } = ofAutomaton automaton := by
  rcases draft with ⟨states, alphabet, closedAlphabet, initial, accepting, transitions⟩
  rcases automaton with ⟨builtStates, builtAlphabet, start, builtAccepting, builtTransitions⟩
  cases initial with
  | none => simp [build, ofAutomaton]
  | some chosen => simp [build, ofAutomaton]

/-! ## Runs -/

theorem bind_eq_ok_iff {α β : Type} {step : Except ConstructionError α}
    {continuation : α → Except ConstructionError β} {value : β} :
    step >>= continuation = .ok value ↔
      ∃ between, step = .ok between ∧ continuation between = .ok value := by
  cases step with
  | error failure => simp [bind, Except.bind]
  | ok between => simp [bind, Except.bind]

theorem toOption_eq_some_iff {ε α : Type} {outcome : Except ε α} {value : α} :
    outcome.toOption = some value ↔ outcome = .ok value := by
  cases outcome with
  | error failure => simp [Except.toOption]
  | ok result => simp [Except.toOption]

theorem performAll_nil_eq_ok_iff : draft.performAll [] = .ok result ↔ result = draft := by
  rw [performAll, Except.ok.injEq]
  exact eq_comm

theorem performAll_cons_eq_ok_iff {edit : Edit} {rest : List Edit} :
    draft.performAll (edit :: rest) = .ok result ↔
      ∃ next, draft.perform edit = .ok next ∧ next.performAll rest = .ok result := by
  rw [performAll]
  cases draft.perform edit with
  | error failure => simp
  | ok next => simp

theorem performAll_append_eq_ok_iff {front back : List Edit} :
    draft.performAll (front ++ back) = .ok result ↔
      ∃ middle, draft.performAll front = .ok middle ∧ middle.performAll back = .ok result := by
  induction front generalizing draft with
  | nil => simp [performAll_nil_eq_ok_iff]
  | cons edit front induction =>
      simp only [List.cons_append, performAll_cons_eq_ok_iff, induction]
      constructor
      · intro run
        rcases run with ⟨next, step, middle, first, second⟩
        exact ⟨middle, ⟨next, step, first⟩, second⟩
      · intro run
        rcases run with ⟨middle, ⟨next, step, first⟩, second⟩
        exact ⟨next, step, middle, first, second⟩

end Draft

end EpsilonAutomata
