import EpsilonAutomata.Draft.Lemmas
import EpsilonAutomata.EdgeList
import EpsilonAutomata.Proofs.Invariant.Consistency
import EpsilonAutomata.Proofs.Loading

/-!
Drafts refer to their own states and characters only.

Every edit keeps a draft well formed, so every run of edits does, strict or lenient, and what is
built from a well-formed draft is a well-formed automaton.
-/

namespace EpsilonAutomata

/-- The parts are consistent, and the initial state is a state once it is chosen. -/
structure Draft.WellFormed (draft : Draft) : Prop extends
    Consistent draft.states draft.alphabet draft.accepting draft.transitions where
  initial_mem : ∀ state ∈ draft.initial, state ∈ draft.states

namespace Draft

variable {draft next : Draft} {state source : StateId} {symbol : Symbol} {targets : StateSet}

/-! ## Opening a draft -/

theorem wellFormed_blank : blank.WellFormed where
  toConsistent := .empty ∅ ∅
  initial_mem state member := by cases member

theorem wellFormed_withAlphabet (characters : List Char) : (withAlphabet characters).WellFormed where
  toConsistent := .empty ∅ (.ofList characters)
  initial_mem state member := by cases member

theorem wellFormed_ofAutomaton_iff {automaton : Automaton} :
    (ofAutomaton automaton).WellFormed ↔ automaton.WellFormed := by
  rw [Automaton.wellFormed_iff_consistent]
  constructor
  · intro wellFormed
    exact ⟨wellFormed.initial_mem automaton.initial rfl, wellFormed.toConsistent⟩
  · intro parts
    rcases parts with ⟨initialMember, consistent⟩
    refine ⟨consistent, ?_⟩
    intro state chosen
    cases chosen
    exact initialMember

/-! ## The effect of each step -/

namespace WellFormed

theorem declare (wellFormed : draft.WellFormed) (character : Char) :
    (draft.declare character).WellFormed where
  toConsistent := wellFormed.toConsistent.mono (fun _ member => member)
    (fun _ member => Std.ExtTreeSet.mem_insert.mpr (.inr member))
  initial_mem := wellFormed.initial_mem

theorem ensureState (wellFormed : draft.WellFormed) (state : StateId) :
    (draft.ensureState state).WellFormed where
  toConsistent := wellFormed.toConsistent.insertState state
  initial_mem other chosen :=
    StateSet.mem_insert.mpr (.inr (wellFormed.initial_mem other chosen))

/-- The literal of new edges joins the alphabet before the edges do. -/
theorem join (wellFormed : draft.WellFormed) (sourceMember : source ∈ draft.states)
    (targetsSubset : ∀ target ∈ targets, target ∈ draft.states) :
    (draft.join source symbol targets).WellFormed := by
  cases isEmpty : targets.isEmpty with
  | true => rwa [join_of_isEmpty isEmpty]
  | false =>
      have alphabet : (draft.join source symbol targets).alphabet =
          draft.alphabet.insertSymbol symbol := by
        simp [Draft.join, isEmpty]
      refine ⟨?_, wellFormed.initial_mem⟩
      rw [alphabet]
      have grown : Consistent draft.states (draft.alphabet.insertSymbol symbol) draft.accepting
          draft.transitions :=
        wellFormed.toConsistent.mono (fun _ member => member)
          (fun _ member => Alphabet.mem_insertSymbol.mpr (.inr member))
      apply grown.add sourceMember targetsSubset
      intro character equal
      exact Alphabet.mem_insertSymbol.mpr (.inl equal)

theorem relabel (wellFormed : draft.WellFormed) (transform : StateId → StateId) :
    (draft.relabel transform).WellFormed where
  toConsistent := wellFormed.toConsistent.image fun state member =>
    StateSet.mem_map.mpr ⟨state, member, rfl⟩
  initial_mem image chosen := by
    rcases Option.map_eq_some_iff.mp chosen with ⟨state, initial, rfl⟩
    exact StateSet.mem_map.mpr ⟨state, wellFormed.initial_mem state initial, rfl⟩

/-! ## Steps and runs -/

theorem setInitial (wellFormed : draft.WellFormed)
    (succeeds : draft.setInitial state = .ok next) : next.WellFormed := by
  rcases setInitial_eq_ok_iff.mp succeeds with ⟨member, rfl⟩
  refine ⟨wellFormed.toConsistent, ?_⟩
  intro other chosen
  cases chosen
  exact member

theorem addAccepting (wellFormed : draft.WellFormed)
    (succeeds : draft.addAccepting state = .ok next) : next.WellFormed := by
  rcases addAccepting_eq_ok_iff.mp succeeds with ⟨member, rfl⟩
  exact ⟨wellFormed.toConsistent.insertAccepting member, wellFormed.initial_mem⟩

theorem addTransition (wellFormed : draft.WellFormed)
    (succeeds : draft.addTransition source symbol targets = .ok next) : next.WellFormed := by
  rcases addTransition_eq_ok_iff.mp succeeds with ⟨sourceMember, targetsSubset, _, rfl⟩
  exact wellFormed.join sourceMember targetsSubset

theorem addState (wellFormed : draft.WellFormed) (succeeds : draft.addState state = .ok next) :
    next.WellFormed := by
  rcases addState_eq_ok_iff.mp succeeds with ⟨_, rfl⟩
  exact wellFormed.ensureState state

theorem mention (wellFormed : draft.WellFormed) (succeeds : draft.mention state = .ok next) :
    next.WellFormed := by
  unfold Draft.mention at succeeds
  split at succeeds
  · cases succeeds
    exact wellFormed
  · exact wellFormed.addState succeeds

theorem connect (wellFormed : draft.WellFormed) {edge : Edge}
    (succeeds : draft.connect edge = .ok next) : next.WellFormed := by
  rcases bind_eq_ok_iff.mp succeeds with ⟨withSource, mentionsSource, succeeds⟩
  rcases bind_eq_ok_iff.mp succeeds with ⟨withTarget, mentionsTarget, succeeds⟩
  exact ((wellFormed.mention mentionsSource).mention mentionsTarget).addTransition succeeds

theorem connectAll (wellFormed : draft.WellFormed) {initial start : Option StateId}
    {edges : List Edge} (succeeds : draft.connectAll initial edges = .ok (next, start)) :
    next.WellFormed := by
  induction edges generalizing draft initial with
  | nil =>
      cases succeeds
      exact wellFormed
  | cons edge rest induction =>
      rcases bind_eq_ok_iff.mp succeeds with ⟨between, connects, succeeds⟩
      exact induction (wellFormed.connect connects) succeeds

theorem perform (wellFormed : draft.WellFormed) {edit : Edit}
    (succeeds : draft.perform edit = .ok next) : next.WellFormed := by
  cases edit with
  | declare character =>
      cases succeeds
      exact wellFormed.declare character
  | addState state => exact wellFormed.addState succeeds
  | addNextState =>
      rcases perform_addNextState_eq_ok_iff.mp succeeds with ⟨state, _, rfl⟩
      exact wellFormed.ensureState state
  | setInitial state => exact wellFormed.setInitial succeeds
  | addAccepting state => exact wellFormed.addAccepting succeeds
  | addTransition source symbol targets => exact wellFormed.addTransition succeeds
  | renameState old new =>
      rcases renameState_eq_ok_iff.mp succeeds with ⟨_, unchanged | renamed⟩
      · rcases unchanged with ⟨_, rfl⟩
        exact wellFormed
      · rcases renamed with ⟨_, _, rfl⟩
        exact wellFormed.relabel (replace old new)

theorem apply (wellFormed : draft.WellFormed) (edit : Edit) : (draft.apply edit).WellFormed := by
  unfold Draft.apply
  split
  · exact wellFormed
  · next succeeds => exact wellFormed.perform succeeds

theorem applyAll (wellFormed : draft.WellFormed) (edits : List Edit) :
    (draft.applyAll edits).WellFormed := by
  induction edits generalizing draft with
  | nil => exact wellFormed
  | cons edit rest induction => exact induction (wellFormed.apply edit)

theorem performAll (wellFormed : draft.WellFormed) {edits : List Edit}
    (succeeds : draft.performAll edits = .ok next) : next.WellFormed :=
  applyAll_of_performAll succeeds ▸ wellFormed.applyAll edits

theorem foldlM {α : Type} {step : Draft → α → Except ConstructionError Draft}
    (keeps : ∀ {draft next : Draft} {item : α}, draft.WellFormed → step draft item = .ok next →
      next.WellFormed)
    (wellFormed : draft.WellFormed) {items : List α}
    (succeeds : items.foldlM step draft = .ok next) : next.WellFormed := by
  induction items generalizing draft with
  | nil =>
      cases succeeds
      exact wellFormed
  | cons item items induction =>
      rw [List.foldlM_cons] at succeeds
      rcases bind_eq_ok_iff.mp succeeds with ⟨between, first, rest⟩
      exact induction (keeps wellFormed first) rest

end WellFormed

end Draft

/-! ## What drafts are used for -/

namespace Automaton

variable {automaton : Automaton}

theorem wellFormed_of_build {draft : Draft} (wellFormed : draft.WellFormed)
    (succeeds : draft.build = .ok automaton) : automaton.WellFormed := by
  rw [← Draft.wellFormed_ofAutomaton_iff, ← Draft.build_eq_ok_iff.mp succeeds]
  exact ⟨wellFormed.toConsistent, wellFormed.initial_mem⟩

theorem wellFormed_of_ofEdges {initial : Option StateId} {edges : List Edge}
    {accepting : List StateId} (succeeds : ofEdges initial edges accepting = .ok automaton) :
    automaton.WellFormed := by
  unfold ofEdges at succeeds
  rcases Draft.bind_eq_ok_iff.mp succeeds with ⟨opened, opens, succeeds⟩
  rcases Draft.bind_eq_ok_iff.mp succeeds with ⟨⟨connected, start⟩, connects, succeeds⟩
  have openedWellFormed := Draft.wellFormed_blank.foldlM (fun before step => before.addState step) opens
  have connectedWellFormed := openedWellFormed.connectAll connects
  cases start with
  | none => cases succeeds
  | some start =>
      rcases Draft.bind_eq_ok_iff.mp succeeds with ⟨started, starts, succeeds⟩
      rcases Draft.bind_eq_ok_iff.mp succeeds with ⟨marked, marks, succeeds⟩
      have startedWellFormed := connectedWellFormed.setInitial starts
      have markedWellFormed :=
        startedWellFormed.foldlM (fun before step => before.addAccepting step) marks
      exact wellFormed_of_build markedWellFormed succeeds

/-- A loaded automaton is the one its record constructs, so it is well formed as built ones are. -/
theorem wellFormed_of_toAutomaton {record : Record} (succeeds : record.toAutomaton = .ok automaton) :
    automaton.WellFormed := by
  rcases Record.toAutomaton_eq_ok_iff.mp succeeds with ⟨valid, rfl⟩
  have run := Draft.performAll_edits_eq_ok_iff.mpr ⟨valid, rfl⟩
  exact Draft.wellFormed_ofAutomaton_iff.mp (Draft.wellFormed_blank.performAll run)

end Automaton

end EpsilonAutomata
