import EpsilonAutomata.Draft

/-!
Steps of construction as data.

An `Edit` is one step together with its arguments. A strict run of a list of edits stops at the
first one that fails; a lenient run leaves the draft as it is there and goes on with the next.
-/

namespace EpsilonAutomata

inductive Edit where
  | declare (character : Char)
  | addState (state : StateId)
  | addNextState
  | setInitial (state : StateId)
  | addAccepting (state : StateId)
  | addTransition (source : StateId) (symbol : Symbol) (targets : StateSet)
  | renameState (old new : StateId)

namespace Draft

def perform (draft : Draft) : Edit → Except ConstructionError Draft
  | .declare character => .ok (draft.declare character)
  | .addState state => draft.addState state
  | .addNextState => draft.addNextState.map Prod.snd
  | .setInitial state => draft.setInitial state
  | .addAccepting state => draft.addAccepting state
  | .addTransition source symbol targets => draft.addTransition source symbol targets
  | .renameState old new => draft.renameState old new

/-- The strict run: the first failure is the outcome. -/
def performAll (draft : Draft) : List Edit → Except ConstructionError Draft
  | [] => .ok draft
  | edit :: rest =>
      match draft.perform edit with
      | .error failure => .error failure
      | .ok next => next.performAll rest

/-- One step of the lenient run. -/
def apply (draft : Draft) (edit : Edit) : Draft :=
  match draft.perform edit with
  | .error _ => draft
  | .ok next => next

/-- The lenient run: a failing edit changes nothing. -/
def applyAll (draft : Draft) (edits : List Edit) : Draft :=
  edits.foldl apply draft

theorem applyAll_of_performAll {draft result : Draft} {edits : List Edit}
    (succeeds : draft.performAll edits = .ok result) : draft.applyAll edits = result := by
  induction edits generalizing draft with
  | nil =>
      cases succeeds
      rfl
  | cons edit rest induction =>
      rw [performAll] at succeeds
      rw [applyAll, List.foldl_cons, apply]
      cases outcome : draft.perform edit with
      | error failure =>
          rw [outcome] at succeeds
          cases succeeds
      | ok next =>
          rw [outcome] at succeeds
          exact induction succeeds

end Draft

end EpsilonAutomata
