import EpsilonAutomata.State

/-!
What can be wrong with the description of an automaton, and how it is reported.
-/

namespace EpsilonAutomata

inductive ConstructionError where
  | duplicateState (state : StateId)
  | unknownState (state : StateId)
  | foreignSymbol (character : Char)
  | noInitialState
  | noStateLeft
  | invalid (violations : List ConstructionError)

namespace ConstructionError

mutual
def message : ConstructionError → String
  | duplicateState state => "State " ++ state.display ++ " already exists"
  | unknownState state =>
      "State " ++ state.display ++ " does not exist. Call .add_state(" ++ state.display ++
        ") first"
  | foreignSymbol character =>
      "Symbol '" ++ character.toString ++ "' is not part of the declared alphabet"
  | noInitialState =>
      "Initial state not specified. Call .set_initial(state) before .build()"
  | noStateLeft => "Every state id is already in use"
  | invalid violations =>
      "Invalid automaton: " ++ "; ".intercalate (messages violations)

def messages : List ConstructionError → List String
  | [] => []
  | violation :: rest => violation.message :: messages rest
end

theorem messages_eq_map (violations : List ConstructionError) :
    messages violations = violations.map message := by
  induction violations with
  | nil => rfl
  | cons violation rest induction => rw [messages, induction, List.map_cons]

/-! ## Equality of errors can be decided -/

mutual
def same : ConstructionError → ConstructionError → Bool
  | duplicateState left, duplicateState right => left = right
  | unknownState left, unknownState right => left = right
  | foreignSymbol left, foreignSymbol right => left = right
  | noInitialState, noInitialState => true
  | noStateLeft, noStateLeft => true
  | invalid left, invalid right => sameAll left right
  | _, _ => false

def sameAll : List ConstructionError → List ConstructionError → Bool
  | [], [] => true
  | left :: leftRest, right :: rightRest => left.same right && sameAll leftRest rightRest
  | _, _ => false
end

mutual
theorem same_refl : ∀ error : ConstructionError, error.same error = true
  | duplicateState _ => by simp [same]
  | unknownState _ => by simp [same]
  | foreignSymbol _ => by simp [same]
  | noInitialState => by simp [same]
  | noStateLeft => by simp [same]
  | invalid violations => by
      rw [same]
      exact sameAll_refl violations

theorem sameAll_refl : ∀ errors : List ConstructionError, sameAll errors errors = true
  | [] => by simp [sameAll]
  | error :: rest => by simp [sameAll, same_refl error, sameAll_refl rest]
end

mutual
theorem eq_of_same : ∀ left right : ConstructionError, left.same right = true → left = right
  | duplicateState _, right, equal => by cases right <;> simp_all [same]
  | unknownState _, right, equal => by cases right <;> simp_all [same]
  | foreignSymbol _, right, equal => by cases right <;> simp_all [same]
  | noInitialState, right, equal => by cases right <;> simp_all [same]
  | noStateLeft, right, equal => by cases right <;> simp_all [same]
  | invalid violations, right, equal => by
      cases right with
      | invalid others =>
          rw [same] at equal
          rw [eq_of_sameAll violations others equal]
      | _ => simp [same] at equal

theorem eq_of_sameAll : ∀ left right : List ConstructionError, sameAll left right = true → left = right
  | [], [], _ => rfl
  | [], _ :: _, equal => by simp [sameAll] at equal
  | _ :: _, [], equal => by simp [sameAll] at equal
  | left :: leftRest, right :: rightRest, equal => by
      rw [sameAll, Bool.and_eq_true] at equal
      rw [eq_of_same left right equal.1, eq_of_sameAll leftRest rightRest equal.2]
end

instance : DecidableEq ConstructionError := fun left right =>
  decidable_of_iff (left.same right = true)
    ⟨eq_of_same left right, fun equal => equal ▸ same_refl left⟩

end ConstructionError

end EpsilonAutomata
