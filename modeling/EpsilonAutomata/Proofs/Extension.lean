import EpsilonAutomata.Proofs.InPlace
import EpsilonAutomata.Proofs.Simulation

/-!
An automaton that is opened again and extended loses no word.

Most edits only add to a draft. Renaming moves everything, but moves it together. So at each moment
the draft contains an image of the automaton (`Draft.Contains`), under a map of states that changes
whenever a state is renamed, and the paths of the automaton have images in what is built.
-/

namespace EpsilonAutomata

namespace Draft

/-! ## What a step does to what is there -/

/-- Nothing is lost or moved, and the initial state is the same. -/
structure Grows (draft next : Draft) : Prop where
  initial : next.initial = draft.initial
  accepting : ∀ state ∈ draft.accepting, state ∈ next.accepting
  edges : ∀ edge ∈ draft.transitions, edge ∈ next.transitions

variable {draft next : Draft} {automaton : Automaton} {image : StateId → StateId} {edit : Edit}
  {edits : List Edit}

theorem Grows.refl (draft : Draft) : draft.Grows draft where
  initial := rfl
  accepting _ member := member
  edges _ member := member

/-- Apart from the choice of an initial state, a step adds to the draft or moves it as a whole. -/
theorem grows_or_relabels (succeeds : draft.perform edit = .ok next)
    (notInitial : ∀ state, edit ≠ .setInitial state) :
    draft.Grows next ∨ ∃ transform, next = draft.relabel transform := by
  cases edit with
  | declare character =>
      cases succeeds
      exact .inl ⟨rfl, fun _ member => member, fun _ member => member⟩
  | addState state =>
      rcases addState_eq_ok_iff.mp succeeds with ⟨_, rfl⟩
      exact .inl ⟨rfl, fun _ member => member, fun _ member => member⟩
  | addNextState =>
      rcases perform_addNextState_eq_ok_iff.mp succeeds with ⟨_, _, rfl⟩
      exact .inl ⟨rfl, fun _ member => member, fun _ member => member⟩
  | setInitial state => exact absurd rfl (notInitial state)
  | addAccepting state =>
      rcases addAccepting_eq_ok_iff.mp succeeds with ⟨_, rfl⟩
      exact .inl ⟨rfl, fun _ member => StateSet.mem_insert.mpr (.inr member), fun _ member => member⟩
  | addTransition source symbol targets =>
      rcases addTransition_eq_ok_iff.mp succeeds with ⟨_, _, _, rfl⟩
      exact .inl ⟨rfl, fun _ member => member, fun _ member => Transitions.mem_add.mpr (.inl member)⟩
  | renameState old new =>
      rcases (renameState_eq_ok_iff.mp succeeds).2 with ⟨_, rfl⟩ | ⟨_, _, rfl⟩
      · exact .inl (.refl next)
      · exact .inr ⟨replace old new, rfl⟩

/-! ## The automaton inside the draft -/

/-- The image of the automaton is part of the draft, and the draft starts where the image does. -/
structure Contains (draft : Draft) (automaton : Automaton) (image : StateId → StateId) : Prop where
  initial : draft.initial = some (image automaton.initial)
  accepting : ∀ state ∈ automaton.accepting, image state ∈ draft.accepting
  edges : ∀ edge ∈ automaton.transitions, edge.relabel image ∈ draft.transitions

theorem contains_ofAutomaton (automaton : Automaton) :
    (ofAutomaton automaton).Contains automaton id where
  initial := rfl
  accepting _ member := member
  edges _ member := member

namespace Contains

theorem grow (contains : draft.Contains automaton image) (grows : draft.Grows next) :
    next.Contains automaton image where
  initial := grows.initial.trans contains.initial
  accepting state accepts := grows.accepting _ (contains.accepting state accepts)
  edges edge member := grows.edges _ (contains.edges edge member)

theorem relabel (contains : draft.Contains automaton image) (transform : StateId → StateId) :
    (draft.relabel transform).Contains automaton (transform ∘ image) where
  initial := congrArg (Option.map transform) contains.initial
  accepting state accepts := StateSet.mem_map.mpr ⟨_, contains.accepting state accepts, rfl⟩
  edges edge member := Transitions.mem_relabel.mpr ⟨_, contains.edges edge member, rfl⟩

theorem apply (contains : draft.Contains automaton image)
    (notInitial : ∀ state, edit ≠ .setInitial state) :
    ∃ moved, (draft.apply edit).Contains automaton moved := by
  rw [Draft.apply]
  cases outcome : draft.perform edit with
  | error failure => exact ⟨image, contains⟩
  | ok next =>
      rcases grows_or_relabels outcome notInitial with grows | ⟨transform, rfl⟩
      · exact ⟨image, contains.grow grows⟩
      · exact ⟨transform ∘ image, contains.relabel transform⟩

theorem applyAll (contains : draft.Contains automaton image)
    (notInitial : ∀ state, .setInitial state ∉ edits) :
    ∃ moved, (draft.applyAll edits).Contains automaton moved := by
  induction edits generalizing draft image with
  | nil => exact ⟨image, contains⟩
  | cons edit rest induction =>
      have headKeeps : ∀ state, edit ≠ .setInitial state := fun state equal =>
        notInitial state (equal ▸ List.mem_cons_self)
      rcases contains.apply headKeeps with ⟨moved, containsNext⟩
      exact induction containsNext fun state member =>
        notInitial state (List.mem_cons_of_mem edit member)

/-! ## Words -/

/-- The path that accepts a word has an image, which accepts it too. -/
theorem build (contains : draft.Contains automaton image) :
    ∃ extended, draft.build = .ok extended ∧
      ∀ word, automaton.accepts word = true → extended.accepts word = true := by
  let extended : Automaton :=
    ⟨draft.states, draft.alphabet, image automaton.initial, draft.accepting, draft.transitions⟩
  have builds : draft.build = .ok extended := by rw [Draft.build, contains.initial]
  have included : ∀ edge ∈ automaton.transitions.relabel image, edge ∈ extended.transitions := by
    intro edge member
    rcases Transitions.mem_relabel.mp member with ⟨original, originalMember, rfl⟩
    exact contains.edges original originalMember
  refine ⟨extended, builds, fun word accepted => ?_⟩
  rcases Automaton.acceptsFrom_iff.mp accepted with ⟨target, accepts, symbols, path, spelling⟩
  exact Automaton.acceptsFrom_iff.mpr ⟨image target, contains.accepting target accepts, symbols,
    (path.relabel image).mono included, spelling⟩

end Contains

end Draft

namespace InPlace

/-- An automaton is opened, and any edits are tried on it, one after the other, whether those before
succeed or not. If none of them sets the initial state, the result can be built and accepts every
word that the automaton accepts. -/
theorem extension_keeps_words {automaton : Automaton} (wellFormed : automaton.WellFormed)
    {edits : List Edit} (notInitial : ∀ state, .setInitial state ∉ edits) :
    ∃ extended, (afterAll edits (.ofAutomaton automaton)).build = .ok extended ∧
      ∀ word, automaton.accepts word = true → extended.accepts word = true := by
  rw [afterAll_eq_applyAll (Draft.wellFormed_ofAutomaton_iff.mpr wellFormed)]
  rcases (Draft.contains_ofAutomaton automaton).applyAll notInitial with ⟨moved, contains⟩
  exact contains.build

/-- The initial state gets another name twice. In between states and edges are added, and some edits
fail. -/
def renamings : List Edit :=
  [.addState .first, .renameState .first .last, .addNextState, .addTransition .first .epsilon {.last},
    .addTransition .last (.literal 'b') (.ofList [.last, .next .first]), .addAccepting .first,
    .renameState .last (.next .first), .renameState .last (.next (.next (.next .first))), .declare 'c']

theorem extension_keeps_words_renamings :
    (Automaton.symbol 'a').WellFormed ∧ (∀ state, .setInitial state ∉ renamings) ∧
      (Automaton.symbol 'a').accepts ['a'] = true ∧
      (afterAll renamings (.ofAutomaton (.symbol 'a'))).initial =
        some (.next (.next (.next .first))) ∧
      ∃ extended, (afterAll renamings (.ofAutomaton (.symbol 'a'))).build = .ok extended ∧
        extended.accepts ['a'] = true := by
  have wellFormed : (Automaton.symbol 'a').WellFormed := by decide +kernel
  have notInitial : ∀ state, .setInitial state ∉ renamings := by simp [renamings]
  have accepted : (Automaton.symbol 'a').accepts ['a'] = true := by decide +kernel
  rcases extension_keeps_words wellFormed notInitial with ⟨extended, builds, keeps⟩
  exact ⟨wellFormed, notInitial, accepted, by decide +kernel, extended, builds, keeps _ accepted⟩

end InPlace

end EpsilonAutomata
