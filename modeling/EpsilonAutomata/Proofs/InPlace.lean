import EpsilonAutomata.Draft.InPlace
import EpsilonAutomata.Draft.Failures
import EpsilonAutomata.EdgeTable
import EpsilonAutomata.Proofs.Invariant.Draft

/-!
Construction in place and construction by replacement.

A step in place leaves behind the draft that its counterpart makes of the draft before, or the draft
itself where the counterpart fails (`InPlace.on_perform`). So no step changes anything before its
last check. This is clear for all steps but one: adding a state that is known already adds it, which
makes no difference. To rename a state in place comes to the same as to rename it everywhere at once
only if the new name is not in use anywhere, as in a well-formed draft it is not. In a table of the
edges whole rows change their names (`EdgeTable.Stores.moveRow`).
-/

namespace EpsilonAutomata

namespace Draft

/-- The outcome of a check: the draft is left as it is. -/
def report (draft : Draft) :
    Option ConstructionError → Except ConstructionError Unit × Draft
  | some failure => (.error failure, draft)
  | none => (.ok (), draft)

/-- The outcome of a step that either fails and changes nothing or makes another draft. -/
def settle (draft : Draft) :
    Except ConstructionError Draft → Except ConstructionError Unit × Draft
  | .error failure => (.error failure, draft)
  | .ok next => (.ok (), next)

theorem settle_eq_error_iff {draft after : Draft} {outcome : Except ConstructionError Draft}
    {failure : ConstructionError} :
    draft.settle outcome = (.error failure, after) ↔ outcome = .error failure ∧ after = draft := by
  cases outcome with
  | error other => simp [settle, eq_comm]
  | ok next => simp [settle]

/-- The draft with two names exchanged in one part after the other. -/
def exchange (draft : Draft) (old new : StateId) : Draft :=
  { draft with
    states := draft.states.exchange old new
    accepting := draft.accepting.exchange old new
    initial := draft.initial.map (replace old new)
    transitions := (draft.transitions.moveRows old new).exchangeTargets old new }

end Draft

namespace InPlace

variable {α β : Type} {draft : Draft}

/-! ## One after another -/

theorem on_bind_get (rest : Draft → InPlace α) (draft : Draft) :
    (get >>= rest).on draft = (rest draft).on draft := rfl

theorem on_bind (step : InPlace α) (rest : α → InPlace β) (draft : Draft) :
    (step >>= rest).on draft =
      match step.on draft with
      | (.error failure, after) => (.error failure, after)
      | (.ok value, after) => (rest value).on after := by
  change (ExceptT.bindCont rest (step.on draft).1).run (step.on draft).2 = _
  rcases step.on draft with ⟨failure | value, after⟩
  · rfl
  · rfl

theorem on_bind_eq_ok_iff {step : InPlace α} {rest : α → InPlace β} {after : Draft} {value : β} :
    (step >>= rest).on draft = (.ok value, after) ↔
      ∃ first between, step.on draft = (.ok first, between) ∧
        (rest first).on between = (.ok value, after) := by
  rw [on_bind]
  rcases step.on draft with ⟨failure | first, between⟩
  · simp
  · simp [and_assoc]

/-- After a check that passes the draft is as it was. -/
theorem on_bind_of_report {check : InPlace Unit} {failure? : Option ConstructionError}
    (reports : check.on draft = draft.report failure?) (rest : Unit → InPlace α) :
    (check >>= rest).on draft =
      failure?.elim ((rest ()).on draft) fun failure => (.error failure, draft) := by
  rw [on_bind, reports]
  cases failure? with
  | some failure => rfl
  | none => rfl

/-! ## Checks -/

theorem on_requireState (state : StateId) (draft : Draft) :
    (requireState state).on draft =
      draft.report ((draft.missing? [state]).map .unknownState) := by
  rw [requireState, on_bind_get, Draft.missing?_singleton]
  by_cases known : state ∈ draft.states
  · simp only [known, Std.ExtTreeSet.contains_iff_mem, if_true]
    rfl
  · simp only [known, Std.ExtTreeSet.contains_iff_mem, if_false]
    rfl

/-- Of several states the first one that is missing is reported. -/
theorem on_requireStates (wanted : List StateId) (draft : Draft) :
    (requireStates wanted).on draft =
      draft.report ((draft.missing? wanted).map .unknownState) := by
  induction wanted with
  | nil => rfl
  | cons state rest induction =>
      change (requireState state >>= fun _ => requireStates rest).on draft = _
      rw [on_bind_of_report (on_requireState state draft), Draft.missing?_cons state rest]
      cases draft.missing? [state] with
      | some missing => rfl
      | none => exact induction

theorem on_requireSymbol (symbol : Symbol) (draft : Draft) :
    (requireSymbol symbol).on draft =
      draft.report ((draft.foreign? symbol).map .foreignSymbol) := by
  rw [requireSymbol, on_bind_get]
  cases draft.foreign? symbol with
  | some character => rfl
  | none => rfl

theorem on_requireFree (state : StateId) (draft : Draft) :
    (requireFree state).on draft =
      draft.report
        (if draft.states.contains state then some (.duplicateState state) else none) := by
  rw [requireFree, on_bind_get]
  cases draft.states.contains state with
  | true => rfl
  | false => rfl

/-! ## Steps -/

theorem on_addState (state : StateId) (draft : Draft) :
    (addState state).on draft = draft.settle (draft.addState state) := by
  change ((if (draft.states.containsThenInsert state).1 then throw (.duplicateState state)
    else pure () : InPlace Unit)).on
      { draft with states := (draft.states.containsThenInsert state).2 } = _
  rw [Std.ExtTreeSet.containsThenInsert_fst, Std.ExtTreeSet.containsThenInsert_snd, Draft.addState]
  by_cases known : state ∈ draft.states
  · -- The state is added again.
    simp only [known, Std.ExtTreeSet.contains_iff_mem, if_true, StateSet.insert_of_mem known]
    rfl
  · simp only [known, Std.ExtTreeSet.contains_iff_mem, if_false]
    rfl

theorem on_addNextState (draft : Draft) :
    addNextState.on draft =
      match draft.addNextState with
      | .error failure => (.error failure, draft)
      | .ok (state, next) => (.ok state, next) := by
  rw [addNextState, on_bind_get, Draft.addNextState]
  cases draft.nextState? with
  | none => rfl
  | some state => rfl

theorem on_perform_addNextState (draft : Draft) :
    (perform .addNextState).on draft = draft.settle (draft.perform .addNextState) := by
  change (addNextState >>= fun _ => pure ()).on draft =
    draft.settle (draft.addNextState.map Prod.snd)
  rw [on_bind, on_addNextState]
  cases draft.addNextState with
  | error failure => rfl
  | ok added => rfl

theorem on_setInitial (state : StateId) (draft : Draft) :
    (setInitial state).on draft = draft.settle (draft.setInitial state) := by
  rw [setInitial, on_bind_of_report (on_requireState state draft), Draft.setInitial]
  cases draft.missing? [state] with
  | some missing => rfl
  | none => rfl

theorem on_addAccepting (state : StateId) (draft : Draft) :
    (addAccepting state).on draft = draft.settle (draft.addAccepting state) := by
  rw [addAccepting, on_bind_of_report (on_requireState state draft), Draft.addAccepting]
  cases draft.missing? [state] with
  | some missing => rfl
  | none => rfl

theorem on_addTransition (source : StateId) (symbol : Symbol) (targets : StateSet) (draft : Draft) :
    (addTransition source symbol targets).on draft =
      draft.settle (draft.addTransition source symbol targets) := by
  rw [addTransition, on_bind_of_report (on_requireState source draft), Draft.addTransition,
    Draft.missing?_cons source targets.toList]
  cases draft.missing? [source] with
  | some missing => rfl
  | none =>
      simp only [Option.map_none, Option.none_or, Option.elim_none]
      rw [on_bind_of_report (on_requireStates targets.toList draft)]
      cases draft.missing? targets.toList with
      | some missing => rfl
      | none =>
          simp only [Option.map_none, Option.elim_none]
          rw [on_bind_of_report (on_requireSymbol symbol draft)]
          cases draft.foreign? symbol with
          | some character => rfl
          | none =>
              cases targets.isEmpty with
              | true => rfl
              | false => rfl

/-- Renaming makes the same checks as its counterpart, but then exchanges the names. -/
theorem on_renameState (old new : StateId) (draft : Draft) :
    (renameState old new).on draft =
      draft.settle ((draft.renameState old new).map fun _ =>
        if old = new then draft else draft.exchange old new) := by
  rw [renameState, on_bind_of_report (on_requireState old draft), Draft.renameState]
  cases draft.missing? [old] with
  | some missing => rfl
  | none =>
      by_cases same : old = new
      · simp only [same, Option.map_none, Option.elim_none, if_true]
        rfl
      · simp only [same, Option.map_none, Option.elim_none, if_false]
        rw [on_bind_of_report (on_requireFree new draft)]
        cases draft.states.contains new with
        | true => rfl
        | false => rfl

/-- Only a renaming may leave behind another draft than its counterpart makes. -/
theorem on_perform_cases (edit : Edit) (draft : Draft) :
    (∃ old new, edit = .renameState old new) ∨
      (perform edit).on draft = draft.settle (draft.perform edit) := by
  cases edit with
  | declare character => exact .inr rfl
  | addState state => exact .inr (on_addState state draft)
  | addNextState => exact .inr (on_perform_addNextState draft)
  | setInitial state => exact .inr (on_setInitial state draft)
  | addAccepting state => exact .inr (on_addAccepting state draft)
  | addTransition source symbol targets => exact .inr (on_addTransition source symbol targets draft)
  | renameState old new => exact .inl ⟨old, new, rfl⟩

/-- On any draft, a step that fails changes nothing, and it fails where its counterpart does. -/
theorem on_perform_eq_error_iff {edit : Edit} {after : Draft} {failure : ConstructionError} :
    (perform edit).on draft = (.error failure, after) ↔
      draft.perform edit = .error failure ∧ after = draft := by
  rcases on_perform_cases edit draft with ⟨old, new, rfl⟩ | settles
  · rw [perform, on_renameState, Draft.settle_eq_error_iff, Draft.map_eq_error_iff]
    rfl
  · rw [settles]
    exact Draft.settle_eq_error_iff

end InPlace

/-! ## Exchanging names -/

theorem Draft.replace_of_ne {old new state : StateId} (different : state ≠ old) :
    Draft.replace old new state = state :=
  if_neg different

theorem Draft.replace_self (old new : StateId) : Draft.replace old new old = new :=
  if_pos rfl

theorem StateSet.exchange_eq_map (states : StateSet) (old new : StateId) :
    states.exchange old new = states.map (Draft.replace old new) := by
  apply StateSet.ext
  intro image
  rw [exchange, mem_map]
  by_cases member : old ∈ states
  · simp only [Std.ExtTreeSet.contains_iff_mem, member, if_true, mem_insert,
      Std.ExtTreeSet.mem_erase]
    constructor
    · intro kept
      rcases kept with rfl | ⟨different, kept⟩
      · exact ⟨old, member, Draft.replace_self old new⟩
      · exact ⟨image, kept, Draft.replace_of_ne fun equal => by simp [equal] at different⟩
    · intro found
      rcases found with ⟨state, kept, rfl⟩
      by_cases equal : state = old
      · exact .inl (equal ▸ (Draft.replace_self old new).symm)
      · right
        rw [Draft.replace_of_ne equal]
        exact ⟨fun same => equal (Std.LawfulEqOrd.eq_of_compare same).symm, kept⟩
  · simp only [Std.ExtTreeSet.contains_iff_mem, member, if_false]
    constructor
    · intro kept
      exact ⟨image, kept, Draft.replace_of_ne fun equal : image = old => member (equal ▸ kept)⟩
    · intro found
      rcases found with ⟨state, kept, rfl⟩
      rwa [Draft.replace_of_ne fun equal : state = old => member (equal ▸ kept)]

theorem StateSet.exchange_ne_empty {states : StateSet} (old new : StateId)
    (nonempty : states ≠ ∅) : states.exchange old new ≠ ∅ := by
  rcases exists_mem_of_ne_empty nonempty with ⟨state, member⟩
  rw [exchange_eq_map]
  exact Std.ExtTreeSet.ne_empty_of_mem (mem_map.mpr ⟨state, member, rfl⟩)

namespace Transitions

variable {transitions : Transitions} {old new : StateId} {edge : Edge}

theorem mem_exchangeTargets :
    edge ∈ transitions.exchangeTargets old new ↔
      ∃ target, (⟨edge.source, edge.symbol, target⟩ : Edge) ∈ transitions ∧
        Draft.replace old new target = edge.target := by
  rw [mem_iff, exchangeTargets, StateRelation.mem_targets_ofRows]
  constructor
  · intro listed
    rcases listed with ⟨row, rowMember, equal, member⟩
    rcases List.mem_map.mp rowMember with ⟨⟨move, targets⟩, entry, rfl⟩
    change edge.target ∈ targets.exchange old new at member
    rw [StateSet.exchange_eq_map] at member
    rcases StateSet.mem_map.mp member with ⟨target, targetMember, imageEqual⟩
    cases equal
    exact ⟨target, StateRelation.mem_targets_of_entry entry targetMember, imageEqual⟩
  · intro image
    rcases image with ⟨target, member, equal⟩
    refine ⟨(edge.move, (transitions.targets edge.move).exchange old new), ?_, rfl, ?_⟩
    · exact List.mem_map.mpr ⟨(edge.move, transitions.targets edge.move),
        StateRelation.entry_of_mem_targets member, rfl⟩
    · rw [StateSet.exchange_eq_map]
      exact StateSet.mem_map.mpr ⟨target, member, equal⟩

theorem moveRows_of_leaving_eq_nil (noRows : transitions.leaving old = []) :
    transitions.moveRows old new = transitions := by
  rw [moveRows, noRows]

/-- Rows that move take the place of those that the new name has. -/
theorem mem_moveRows_of_leaving_ne_nil (rows : transitions.leaving old ≠ []) :
    edge ∈ transitions.moveRows old new ↔
      edge ∈ transitions ∧ edge.source ≠ old ∧ edge.source ≠ new ∨
        new = edge.source ∧ (⟨old, edge.symbol, edge.target⟩ : Edge) ∈ transitions := by
  unfold moveRows
  split
  · next noRows => exact absurd noRows rows
  · rw [mem_iff, StateRelation.mem_targets_insertMany, ← mem_iff, mem_filterKeys, Bool.and_eq_true,
      decide_eq_true_eq, decide_eq_true_eq]
    apply or_congr_right
    constructor
    · intro moved
      rcases moved with ⟨row, listed, equal, member⟩
      rcases List.mem_map.mp listed with ⟨⟨symbol, targets⟩, leaves, rfl⟩
      cases equal
      exact ⟨rfl, StateRelation.mem_targets_of_entry (mem_leaving_iff.mp leaves) member⟩
    · intro moved
      rcases moved with ⟨rfl, member⟩
      exact ⟨(edge.move, transitions.targets ⟨old, edge.symbol⟩),
        List.mem_map.mpr ⟨(edge.symbol, transitions.targets ⟨old, edge.symbol⟩),
          mem_leaving_iff.mpr (StateRelation.entry_of_mem_targets member), rfl⟩, rfl, member⟩

/-- As no edge leaves the new name, none is lost. -/
theorem mem_moveRows (free : ∀ edge ∈ transitions, edge.source ≠ new) :
    edge ∈ transitions.moveRows old new ↔
      ∃ source, (⟨source, edge.symbol, edge.target⟩ : Edge) ∈ transitions ∧
        Draft.replace old new source = edge.source := by
  by_cases noRows : transitions.leaving old = []
  · rw [moveRows_of_leaving_eq_nil noRows]
    constructor
    · intro member
      have notOld := source_ne_of_leaving_eq_nil noRows member
      exact ⟨edge.source, member, Draft.replace_of_ne notOld⟩
    · intro moved
      rcases moved with ⟨source, member, equal⟩
      rw [Draft.replace_of_ne (source_ne_of_leaving_eq_nil noRows member)] at equal
      cases equal
      exact member
  · rw [mem_moveRows_of_leaving_ne_nil noRows]
    constructor
    · intro either
      rcases either with ⟨member, notOld, _⟩ | ⟨equal, member⟩
      · exact ⟨edge.source, member, Draft.replace_of_ne notOld⟩
      · exact ⟨old, member, (Draft.replace_self old new).trans equal⟩
    · intro moved
      rcases moved with ⟨source, member, equal⟩
      by_cases isOld : source = old
      · subst isOld
        rw [Draft.replace_self] at equal
        exact .inr ⟨equal, member⟩
      · rw [Draft.replace_of_ne isOld] at equal
        cases equal
        exact .inl ⟨member, isOld, free _ member⟩

end Transitions

/-! ## The same in a table -/

namespace EdgeTable

variable {table : EdgeTable} {transitions : Transitions}

/-- The row of one state becomes the row of another, whose own row is lost. -/
def moveRow (table : EdgeTable) (old new : StateId) : EdgeTable :=
  match table[old]? with
  | none => table
  | some row => (table.erase old).insert new row

def exchangeTargets (table : EdgeTable) (old new : StateId) : EdgeTable :=
  table.map fun _ row => row.map fun _ targets => targets.exchange old new

theorem getElem?_exchangeTargets {old new source : StateId} :
    (table.exchangeTargets old new)[source]? =
      table[source]?.map fun row => row.map fun _ targets => targets.exchange old new :=
  Std.ExtTreeMap.getElem?_map

theorem targets_exchangeTargets {old new source : StateId} {symbol : Symbol} :
    (table.exchangeTargets old new).targets source symbol =
      (table.targets source symbol).exchange old new := by
  rw [targets, targets, getElem?_exchangeTargets]
  cases table[source]? with
  | none => rfl
  | some row =>
      simp only [Option.map_some, Option.bind_some, Std.ExtTreeMap.getElem?_map]
      cases row[symbol]? with
      | none => rfl
      | some targets => rfl

/-- Targets get other names, but none is lost. -/
theorem NoEmptyRow.exchangeTargets (noEmptyRow : table.NoEmptyRow) (old new : StateId) :
    (table.exchangeTargets old new).NoEmptyRow where
  row_ne_empty source row stored isEmpty := by
    rw [getElem?_exchangeTargets] at stored
    rcases Option.map_eq_some_iff.mp stored with ⟨before, storedBefore, rfl⟩
    apply noEmptyRow.row_ne_empty source before storedBefore
    rw [Std.ExtTreeMap.eq_empty_iff_forall_not_mem] at isEmpty ⊢
    exact fun symbol member => isEmpty symbol (Std.ExtTreeMap.mem_map.mpr member)
  entry_ne_empty source row symbol targets stored found := by
    rw [getElem?_exchangeTargets] at stored
    rcases Option.map_eq_some_iff.mp stored with ⟨before, storedBefore, rfl⟩
    rw [Std.ExtTreeMap.getElem?_map] at found
    rcases Option.map_eq_some_iff.mp found with ⟨states, foundBefore, rfl⟩
    exact StateSet.exchange_ne_empty old new
      (noEmptyRow.entry_ne_empty source before symbol states storedBefore foundBefore)

namespace Stores

theorem moveRow (stores : table.Stores transitions) (old new : StateId) :
    (table.moveRow old new).Stores (transitions.moveRows old new) := by
  rw [EdgeTable.moveRow]
  cases stored : table[old]? with
  | none =>
      rwa [Transitions.moveRows_of_leaving_eq_nil (stores.getElem?_eq_none_iff.mp stored)]
  | some row =>
      have leaves : transitions.leaving old ≠ [] := fun noRows => by
        rw [stores.getElem?_eq_none_iff.mpr noRows] at stored
        cases stored
      have moved (source : StateId) : ((table.erase old).insert new row)[source]? =
          if new = source then some row else if old = source then none else table[source]? := by
        simp [Std.ExtTreeMap.getElem?_insert, Std.ExtTreeMap.getElem?_erase]
      constructor
      case noEmptyRow =>
        apply stores.noEmptyRow.of_rows
        intro source other found
        rw [moved] at found
        split at found
        · exact ⟨old, stored.trans found⟩
        · split at found
          · cases found
          · exact ⟨source, found⟩
      case mem_targets =>
        intro edge
        rw [Transitions.mem_moveRows_of_leaving_ne_nil leaves, ← stores.mem_targets,
          ← stores.mem_targets, mem_targets_iff, mem_targets_iff, mem_targets_iff, moved]
        by_cases isNew : new = edge.source
        · simp [isNew, stored]
        · by_cases isOld : old = edge.source
          · simp [isNew, isOld]
          · simp [isNew, isOld, Ne.symm isNew, Ne.symm isOld]

theorem exchangeTargets (stores : table.Stores transitions) (old new : StateId) :
    (table.exchangeTargets old new).Stores (transitions.exchangeTargets old new) where
  noEmptyRow := stores.noEmptyRow.exchangeTargets old new
  mem_targets edge := by
    rw [Transitions.mem_exchangeTargets, targets_exchangeTargets, StateSet.exchange_eq_map,
      StateSet.mem_map]
    exact exists_congr fun target =>
      and_congr_left' (stores.mem_targets ⟨edge.source, edge.symbol, target⟩)

end Stores

end EdgeTable

namespace Draft

variable {draft : Draft} {old new : StateId}

/-- Exchanging two names is renaming everywhere at once if the new one is not in use. -/
theorem exchange_eq_relabel (wellFormed : draft.WellFormed) (free : new ∉ draft.states) :
    draft.exchange old new = draft.relabel (replace old new) := by
  have noEdges : ∀ edge ∈ draft.transitions, edge.source ≠ new := fun edge member equal =>
    free (equal ▸ wellFormed.source_mem edge member)
  have transitions : (draft.transitions.moveRows old new).exchangeTargets old new =
      draft.transitions.relabel (replace old new) := by
    apply Transitions.ext
    intro edge
    rw [Transitions.mem_exchangeTargets, Transitions.mem_relabel]
    simp only [Transitions.mem_moveRows noEdges]
    constructor
    · intro moved
      rcases moved with ⟨target, ⟨source, member, sourceEqual⟩, targetEqual⟩
      refine ⟨⟨source, edge.symbol, target⟩, member, ?_⟩
      rw [Edge.relabel, sourceEqual, targetEqual]
    · intro image
      rcases image with ⟨preimage, member, rfl⟩
      exact ⟨preimage.target, ⟨preimage.source, member, rfl⟩, rfl⟩
  rw [exchange, relabel, transitions, StateSet.exchange_eq_map, StateSet.exchange_eq_map]

end Draft

namespace InPlace

variable {draft : Draft}

/-- On a well-formed draft a step in place comes to the same as its counterpart, and where that
fails it changes nothing. -/
theorem on_perform (wellFormed : draft.WellFormed) (edit : Edit) :
    (perform edit).on draft = draft.settle (draft.perform edit) := by
  rcases on_perform_cases edit draft with ⟨old, new, rfl⟩ | settles
  · change (renameState old new).on draft = draft.settle (draft.renameState old new)
    rw [on_renameState]
    cases outcome : draft.renameState old new with
    | error failure => rfl
    | ok next =>
        rcases (Draft.renameState_eq_ok_iff.mp outcome).2 with ⟨same, rfl⟩ | ⟨different, free, rfl⟩
        · rw [Except.map, if_pos same]
        · rw [Except.map, if_neg different, Draft.exchange_eq_relabel wellFormed free]
  · exact settles

theorem after_perform (wellFormed : draft.WellFormed) (edit : Edit) :
    ((perform edit).on draft).2 = draft.apply edit := by
  rw [on_perform wellFormed, Draft.apply]
  cases draft.perform edit with
  | error failure => rfl
  | ok next => rfl

/-- A run in place leaves behind what the lenient run makes. -/
theorem afterAll_eq_applyAll (wellFormed : draft.WellFormed) (edits : List Edit) :
    afterAll edits draft = draft.applyAll edits := by
  induction edits generalizing draft with
  | nil => rfl
  | cons edit rest induction =>
      change afterAll rest ((perform edit).on draft).2 = (draft.apply edit).applyAll rest
      rw [after_perform wellFormed, induction (wellFormed.apply edit)]

end InPlace

end EpsilonAutomata
