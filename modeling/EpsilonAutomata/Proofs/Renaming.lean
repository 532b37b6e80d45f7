import EpsilonAutomata.Proofs.InPlace
import EpsilonAutomata.Proofs.Isomorphism

/-!
Renaming a state changes its name and nothing else.

Giving a state a name that is not in use is a map of states that can be undone: away from the new
name, `Draft.replace new old` is the inverse of `Draft.replace old new`. So renaming back restores
the draft (`Draft.relabel_relabel_of_inverse`), and what the draft builds before and after are
isomorphic. That no state, edge or accepting state has the new name already is essential for all of
this, and it is where the draft has to be well formed.
-/

namespace EpsilonAutomata

/-! ## There and back -/

variable {forth back : StateId → StateId}

theorem StateSet.map_map_of_inverse {states : StateSet}
    (inverse : ∀ state ∈ states, back (forth state) = state) :
    (states.map forth).map back = states := by
  apply StateSet.ext
  intro state
  rw [mem_map, exists_mem_map]
  constructor
  · intro found
    rcases found with ⟨original, member, equal⟩
    exact equal ▸ (inverse original member).symm ▸ member
  · exact fun member => ⟨state, member, inverse state member⟩

theorem Transitions.relabel_relabel_of_inverse {transitions : Transitions}
    (inverse : ∀ edge ∈ transitions, (edge.relabel forth).relabel back = edge) :
    (transitions.relabel forth).relabel back = transitions := by
  apply Transitions.ext
  intro edge
  simp only [mem_relabel]
  constructor
  · intro found
    rcases found with ⟨_, ⟨original, member, rfl⟩, equal⟩
    exact equal ▸ (inverse original member).symm ▸ member
  · exact fun member => ⟨edge.relabel forth, ⟨edge, member, rfl⟩, inverse edge member⟩

namespace Draft

variable {draft : Draft} {automaton : Automaton} {old new state left right : StateId}

theorem relabel_relabel_of_inverse (wellFormed : draft.WellFormed)
    (inverse : ∀ state ∈ draft.states, back (forth state) = state) :
    (draft.relabel forth).relabel back = draft := by
  have states := StateSet.map_map_of_inverse inverse
  have accepting := StateSet.map_map_of_inverse fun state accepts =>
    inverse state (wellFormed.accepting_subset state accepts)
  have initial : (draft.initial.map forth).map back = draft.initial := by
    cases chosen : draft.initial with
    | none => rfl
    | some state => exact congrArg some (inverse state (wellFormed.initial_mem state chosen))
  have transitions : (draft.transitions.relabel forth).relabel back = draft.transitions := by
    apply Transitions.relabel_relabel_of_inverse
    intro edge member
    rw [Edge.relabel, Edge.relabel, inverse edge.source (wellFormed.source_mem edge member),
      inverse edge.target (wellFormed.target_mem edge member)]
  rw [relabel, relabel]
  simp only [states, accepting, initial, transitions]

/-! ## Names that are not in use -/

theorem replace_replace (other : state ≠ new) : replace new old (replace old new state) = state := by
  by_cases isOld : state = old
  · rw [isOld, replace_self, replace_self]
  · rw [replace_of_ne isOld, replace_of_ne other]

theorem eq_of_replace_eq (leftOther : left ≠ new) (rightOther : right ≠ new)
    (equal : replace old new left = replace old new right) : left = right := by
  rw [← @replace_replace old new left leftOther, equal, replace_replace rightOther]

/-- Nothing is called by the old name any more. -/
theorem not_mem_map_replace {states : StateSet} (known : old ∈ states) (free : new ∉ states) :
    old ∉ states.map (replace old new) := by
  intro member
  rcases StateSet.mem_map.mp member with ⟨original, originalMember, equal⟩
  by_cases isOld : original = old
  · rw [isOld, replace_self] at equal
    exact free (equal ▸ known)
  · rw [replace_of_ne isOld] at equal
    exact isOld equal

/-! ## What renaming does -/

/-- Old and new name have been exchanged in every part of the draft, and the alphabet is the same
and as closed as before. -/
structure IsRenamed (after draft : Draft) (old new : StateId) : Prop where
  states : ∀ state, state ∈ after.states ↔
    ∃ original ∈ draft.states, replace old new original = state
  initial : after.initial = draft.initial.map (replace old new)
  accepting : ∀ state, state ∈ after.accepting ↔
    ∃ original ∈ draft.accepting, replace old new original = state
  edges : ∀ edge : Edge, edge ∈ after.transitions ↔
    ∃ original ∈ draft.transitions, original.relabel (replace old new) = edge
  alphabet : after.alphabet = draft.alphabet
  closedAlphabet : after.closedAlphabet = draft.closedAlphabet

theorem isRenamed_relabel (draft : Draft) (old new : StateId) :
    (draft.relabel (replace old new)).IsRenamed draft old new where
  states _ := StateSet.mem_map
  initial := rfl
  accepting _ := StateSet.mem_map
  edges _ := Transitions.mem_relabel
  alphabet := rfl
  closedAlphabet := rfl

theorem renameState_of_free (known : old ∈ draft.states) (free : new ∉ draft.states) :
    draft.renameState old new = .ok (draft.relabel (replace old new)) := by
  have different : old ≠ new := fun equal => free (equal ▸ known)
  exact renameState_eq_ok_iff.mpr ⟨known, .inr ⟨different, free, rfl⟩⟩

theorem build_relabel (builds : draft.build = .ok automaton) (transform : StateId → StateId) :
    (draft.relabel transform).build = .ok (automaton.relabel transform) := by
  rw [build_eq_ok_iff] at builds ⊢
  exact congrArg (·.relabel transform) builds

theorem states_of_build (builds : draft.build = .ok automaton) : automaton.states = draft.states :=
  (congrArg Draft.states (build_eq_ok_iff.mp builds)).symm

theorem separates_replace (builds : draft.build = .ok automaton) (free : new ∉ draft.states) :
    automaton.Separates (replace old new) := by
  have others : ∀ state ∈ automaton.states, state ≠ new := fun state member equal =>
    free (states_of_build builds ▸ equal ▸ member)
  intro left leftMember right rightMember
  exact eq_of_replace_eq (others left leftMember) (others right rightMember)

end Draft

namespace InPlace

variable {draft : Draft} {old new : StateId}

theorem on_renameState_of_free (wellFormed : draft.WellFormed) (known : old ∈ draft.states)
    (free : new ∉ draft.states) :
    (perform (.renameState old new)).on draft =
      (.ok (), draft.relabel (Draft.replace old new)) := by
  have succeeds : draft.perform (.renameState old new) =
      .ok (draft.relabel (Draft.replace old new)) := Draft.renameState_of_free known free
  rw [on_perform wellFormed, succeeds]
  rfl

/-- Renaming a state, one part of the draft after the other, to a name that is not in use succeeds
and leaves the draft with the new name in place of the old one; renaming it back restores the draft.
What the draft builds then accepts the same words as before, and has the same epsilon closures but
for the name. -/
theorem renaming_exact (wellFormed : draft.WellFormed) (known : old ∈ draft.states)
    (free : new ∉ draft.states) :
    ∃ after, (perform (.renameState old new)).on draft = (.ok (), after) ∧
      after.IsRenamed draft old new ∧
      (perform (.renameState new old)).on after = (.ok (), draft) ∧
      ∀ automaton, draft.build = .ok automaton → ∃ renamed, after.build = .ok renamed ∧
        (∀ word, renamed.accepts word = automaton.accepts word) ∧
        ∀ states : StateSet, (∀ state ∈ states, state ∈ automaton.states) →
          renamed.closure (states.map (Draft.replace old new)) =
            (automaton.closure states).map (Draft.replace old new) := by
  refine ⟨_, on_renameState_of_free wellFormed known free, draft.isRenamed_relabel old new, ?_, ?_⟩
  · have renamedKnown : new ∈ draft.states.map (Draft.replace old new) :=
      StateSet.mem_map.mpr ⟨old, known, Draft.replace_self old new⟩
    have oldFree := Draft.not_mem_map_replace known free
    have others : ∀ state ∈ draft.states, state ≠ new := fun state member equal =>
      free (equal ▸ member)
    rw [on_renameState_of_free (wellFormed.relabel _) renamedKnown oldFree,
      Draft.relabel_relabel_of_inverse wellFormed fun state member =>
        Draft.replace_replace (others state member)]
  · intro automaton builds
    have automatonWellFormed := Automaton.wellFormed_of_build wellFormed builds
    have separates : automaton.Separates (Draft.replace old new) :=
      Draft.separates_replace builds free
    exact ⟨_, Draft.build_relabel builds _,
      Automaton.accepts_relabel automatonWellFormed separates,
      fun _ => Automaton.closure_relabel automatonWellFormed separates⟩

/-- A draft whose alphabet is closed. Edges lead from its initial state to itself and elsewhere, and
back to it. -/
def looped : Draft where
  states := .ofList [.first, .next .first, .last]
  alphabet := .ofList ['a', 'b']
  closedAlphabet := true
  initial := some .first
  accepting := .ofList [.first, .last]
  transitions := .ofRows
    [(⟨.first, .epsilon⟩, .ofList [.first, .last]),
      (⟨.first, .literal 'a'⟩, .ofList [.first, .next .first]),
      (⟨.next .first, .epsilon⟩, {.first})]

theorem renaming_exact_looped :
    looped.WellFormed ∧ .first ∈ looped.states ∧ ⟨7, by decide⟩ ∉ looped.states ∧
      ∃ after, (perform (.renameState .first ⟨7, by decide⟩)).on looped = (.ok (), after) ∧
        after ≠ looped ∧ after.initial = some ⟨7, by decide⟩ ∧
        (perform (.renameState ⟨7, by decide⟩ .first)).on after = (.ok (), looped) ∧
        ∃ renamed, after.build = .ok renamed ∧ renamed.accepts ['a'] = true ∧
          renamed.closure {.next .first} =
            .ofList [.next .first, ⟨7, by decide⟩, .last] := by
  let automaton : Automaton :=
    ⟨looped.states, looped.alphabet, .first, looped.accepting, looped.transitions⟩
  have wellFormed : looped.WellFormed :=
    have automatonWellFormed : automaton.WellFormed := by decide +kernel
    have opened := Draft.wellFormed_ofAutomaton_iff.mpr automatonWellFormed
    ⟨opened.toConsistent, opened.initial_mem⟩
  have known : .first ∈ looped.states := by decide +kernel
  have free : (⟨7, by decide⟩ : StateId) ∉ looped.states := by decide +kernel
  rcases renaming_exact wellFormed known free with ⟨after, succeeds, renames, undone, both⟩
  rcases both automaton rfl with ⟨renamed, builds, accepts, closure⟩
  have initial : after.initial = some ⟨7, by decide⟩ := renames.initial
  have changed : after ≠ looped := by
    intro equal
    rw [equal] at initial
    exact absurd initial (by decide)
  have inside : ∀ state ∈ ({.next .first} : StateSet), state ∈ automaton.states := by
    intro state member
    rw [← StateSet.mem_singleton.mp member]
    decide +kernel
  have image : ({.next .first} : StateSet).map (Draft.replace .first ⟨7, by decide⟩) =
      {.next .first} := by decide +kernel
  have closed := closure _ inside
  rw [image] at closed
  exact ⟨wellFormed, known, free, after, succeeds, changed, initial, undone, renamed, builds,
    (accepts ['a']).trans (by decide +kernel), closed.trans (by decide +kernel)⟩

end InPlace

end EpsilonAutomata
