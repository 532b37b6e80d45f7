import EpsilonAutomata.Proofs.InPlace

/-!
Which edits a draft refuses, with which error, and that refusing one leaves the draft alone.

What a draft refuses is said here without reference to the steps: `Draft.Refuses` has one case for
each reason. Where several checks could fail, the case of the later one requires that the draft
passes the earlier ones, so for each edit at most one error is left.
-/

namespace EpsilonAutomata

/-- The reasons of a draft to refuse an edit. -/
inductive Draft.Refuses (draft : Draft) : Edit → ConstructionError → Prop
  | stateExists {state : StateId} (known : state ∈ draft.states) :
      Refuses draft (.addState state) (.duplicateState state)
  | noStateLeft (allKnown : ∀ state, state ∈ draft.states) :
      Refuses draft .addNextState .noStateLeft
  | initialMissing {state : StateId} (unknown : state ∉ draft.states) :
      Refuses draft (.setInitial state) (.unknownState state)
  | acceptingMissing {state : StateId} (unknown : state ∉ draft.states) :
      Refuses draft (.addAccepting state) (.unknownState state)
  | sourceMissing {source : StateId} {symbol : Symbol} {targets : StateSet}
      (unknown : source ∉ draft.states) :
      Refuses draft (.addTransition source symbol targets) (.unknownState source)
  /-- Of several missing targets the smallest one is named. -/
  | targetMissing {source target : StateId} {symbol : Symbol} {targets : StateSet}
      (sourceKnown : source ∈ draft.states) (member : target ∈ targets)
      (unknown : target ∉ draft.states)
      (smallest : ∀ other ∈ targets, other < target → other ∈ draft.states) :
      Refuses draft (.addTransition source symbol targets) (.unknownState target)
  | symbolForeign {source : StateId} {character : Char} {targets : StateSet}
      (sourceKnown : source ∈ draft.states)
      (targetsKnown : ∀ target ∈ targets, target ∈ draft.states)
      (closed : draft.closedAlphabet = true) (unknown : character ∉ draft.alphabet) :
      Refuses draft (.addTransition source (.literal character) targets) (.foreignSymbol character)
  /-- It makes no difference whether the new name is the old one. -/
  | oldMissing {old new : StateId} (unknown : old ∉ draft.states) :
      Refuses draft (.renameState old new) (.unknownState old)
  | newExists {old new : StateId} (oldKnown : old ∈ draft.states) (different : old ≠ new)
      (known : new ∈ draft.states) :
      Refuses draft (.renameState old new) (.duplicateState new)

namespace Draft

variable {draft : Draft} {edit : Edit} {failure : ConstructionError}

/-! ## Refusing is failing -/

theorem Refuses.perform_eq_error (refused : draft.Refuses edit failure) :
    draft.perform edit = .error failure := by
  cases refused with
  | stateExists known => exact addState_eq_error_iff.mpr ⟨known, rfl⟩
  | noStateLeft allKnown =>
      exact map_eq_error_iff.mpr (addNextState_eq_error_iff.mpr ⟨allKnown, rfl⟩)
  | initialMissing unknown => exact setInitial_eq_error_iff.mpr ⟨unknown, rfl⟩
  | acceptingMissing unknown => exact addAccepting_eq_error_iff.mpr ⟨unknown, rfl⟩
  | @sourceMissing source symbol targets unknown =>
      have missing : draft.missing? (source :: targets.toList) = some source :=
        missing?_cons_eq_some_iff.mpr (.inl ⟨unknown, rfl⟩)
      exact addTransition_eq_error_iff.mpr (.inl ⟨source, missing, rfl⟩)
  | @targetMissing source target symbol targets sourceKnown member unknown smallest =>
      have missing : draft.missing? (source :: targets.toList) = some target :=
        missing?_cons_eq_some_iff.mpr (.inr ⟨sourceKnown, member, unknown, smallest⟩)
      exact addTransition_eq_error_iff.mpr (.inl ⟨target, missing, rfl⟩)
  | @symbolForeign source character targets sourceKnown targetsKnown closed unknown =>
      have missing : draft.missing? (source :: targets.toList) = none :=
        missing?_cons_eq_none_iff.mpr ⟨sourceKnown, targetsKnown⟩
      have foreign := foreign?_eq_some_iff.mpr ⟨rfl, closed, unknown⟩
      exact addTransition_eq_error_iff.mpr (.inr ⟨missing, character, foreign, rfl⟩)
  | oldMissing unknown => exact renameState_eq_error_iff.mpr (.inl ⟨unknown, rfl⟩)
  | newExists oldKnown different known =>
      exact renameState_eq_error_iff.mpr (.inr ⟨oldKnown, different, known, rfl⟩)

theorem refuses_of_perform_eq_error (failed : draft.perform edit = .error failure) :
    draft.Refuses edit failure := by
  cases edit with
  | declare character => cases failed
  | addState state =>
      rcases addState_eq_error_iff.mp failed with ⟨known, rfl⟩
      exact .stateExists known
  | addNextState =>
      rcases addNextState_eq_error_iff.mp (map_eq_error_iff.mp failed) with ⟨allKnown, rfl⟩
      exact .noStateLeft allKnown
  | setInitial state =>
      rcases setInitial_eq_error_iff.mp failed with ⟨unknown, rfl⟩
      exact .initialMissing unknown
  | addAccepting state =>
      rcases addAccepting_eq_error_iff.mp failed with ⟨unknown, rfl⟩
      exact .acceptingMissing unknown
  | addTransition source symbol targets =>
      rcases addTransition_eq_error_iff.mp failed with
        ⟨state, missing, rfl⟩ | ⟨missing, character, foreign, rfl⟩
      · rcases missing?_cons_eq_some_iff.mp missing with
          ⟨unknown, rfl⟩ | ⟨sourceKnown, member, unknown, smallest⟩
        · exact .sourceMissing unknown
        · exact .targetMissing sourceKnown member unknown smallest
      · rcases missing?_cons_eq_none_iff.mp missing with ⟨sourceKnown, targetsKnown⟩
        rcases foreign?_eq_some_iff.mp foreign with ⟨rfl, closed, unknown⟩
        exact .symbolForeign sourceKnown targetsKnown closed unknown
  | renameState old new =>
      rcases renameState_eq_error_iff.mp failed with
        ⟨unknown, rfl⟩ | ⟨oldKnown, different, known, rfl⟩
      · exact .oldMissing unknown
      · exact .newExists oldKnown different known

theorem refuses_iff : draft.Refuses edit failure ↔ draft.perform edit = .error failure :=
  ⟨Refuses.perform_eq_error, refuses_of_perform_eq_error⟩

end Draft

namespace InPlace

variable {draft : Draft} {edit : Edit} {failure : ConstructionError} {after : Draft}

/-! ## Steps in place -/

theorem on_perform_eq_error_iff_refuses :
    (perform edit).on draft = (.error failure, after) ↔
      draft.Refuses edit failure ∧ after = draft := by
  rw [on_perform_eq_error_iff, Draft.refuses_iff]

/-- Of three things that are wrong the smaller of the missing targets is reported. -/
example :
    ((addTransition .first (.literal 'b') (.ofList [.last, .next .first])).on
      ((Draft.withAlphabet ['a']).ensureState .first)).1 =
        .error (.unknownState (.next .first)) := rfl

theorem on_perform_succeeds_iff :
    (∃ after, (perform edit).on draft = (.ok (), after)) ↔
      ∀ failure, ¬draft.Refuses edit failure := by
  constructor
  · intro succeeds failure refused
    rcases succeeds with ⟨after, succeeds⟩
    have fails := on_perform_eq_error_iff_refuses.mpr ⟨refused, rfl⟩
    rw [succeeds] at fails
    cases fails
  · intro notRefused
    rcases outcome : (perform edit).on draft with ⟨failure | value, after⟩
    · have refused := (on_perform_eq_error_iff_refuses.mp outcome).1
      exact absurd refused (notRefused failure)
    · exact ⟨after, rfl⟩

theorem after_addTransition_empty (source : StateId) (symbol : Symbol) (draft : Draft) :
    ((addTransition source symbol ∅).on draft).2 = draft := by
  rw [on_addTransition]
  cases outcome : draft.addTransition source symbol ∅ with
  | error failure => rfl
  | ok next =>
      rcases Draft.addTransition_eq_ok_iff.mp outcome with ⟨_, _, _, rfl⟩
      exact Draft.join_of_isEmpty Std.ExtTreeSet.isEmpty_empty

theorem after_renameState_self (state : StateId) (draft : Draft) :
    ((renameState state state).on draft).2 = draft := by
  rw [on_renameState]
  cases draft.renameState state state with
  | error failure => rfl
  | ok next => exact if_pos rfl

/-- A step in place fails just if the draft refuses the edit, with the error of that refusal, and
then the draft is left as it was. Two edits leave it so as well when they succeed: one that adds
edges to no targets, and one that renames a state to what it is. -/
theorem refusal_exact (draft : Draft) :
    (∀ edit failure after, (perform edit).on draft = (.error failure, after) ↔
      draft.Refuses edit failure ∧ after = draft) ∧
    (∀ edit, (∃ after, (perform edit).on draft = (.ok (), after)) ↔
      ∀ failure, ¬draft.Refuses edit failure) ∧
    (∀ source symbol, ((perform (.addTransition source symbol ∅)).on draft).2 = draft) ∧
    (∀ state, ((perform (.renameState state state)).on draft).2 = draft) := by
  refine ⟨?_, ?_, ?_, ?_⟩
  · exact fun edit failure after => on_perform_eq_error_iff_refuses
  · exact fun edit => on_perform_succeeds_iff
  · exact fun source symbol => after_addTransition_empty source symbol draft
  · exact fun state => after_renameState_self state draft

end InPlace

end EpsilonAutomata
