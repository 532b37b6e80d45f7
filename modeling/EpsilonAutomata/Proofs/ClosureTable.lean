import EpsilonAutomata.Simulator.ClosureTable
import EpsilonAutomata.Simulator.Trace

/-!
Closures found in advance are the closures found by a search.

What a set leads to is what its members lead to one by one, so the rows of a closure table can stand
for the search, however their cycles overlap. States without a row are those outside the automaton,
and no edge starts there. So a table and a search find the same closures, and since all questions
about words are answered from closures they give the same answers.
-/

namespace EpsilonAutomata

/-! ## Simulators with the same closures -/

/-- Two simulators that cannot be told apart. -/
structure Simulator.Agree (left right : Simulator) : Prop where
  closure : ∀ states, left.closure states = right.closure states
  initialClosure : left.initialClosure = right.initialClosure
  step : ∀ states character, left.step states character = right.step states character
  stepClosed : ∀ states character,
    left.stepClosed states character = right.stepClosed states character
  extended : ∀ states word, left.extended states word = right.extended states word
  isAcceptingSet : ∀ states, left.isAcceptingSet states = right.isAcceptingSet states
  acceptsFrom : ∀ state word, left.acceptsFrom state word = right.acceptsFrom state word
  accepts : ∀ word, left.accepts word = right.accepts word
  trace : ∀ word earlier, (left.trace word).item earlier = (right.trace word).item earlier

theorem Simulator.agree_of_closure {left right : Simulator}
    (sameAutomaton : left.automaton = right.automaton)
    (sameClosure : ∀ states, left.closure states = right.closure states) : left.Agree right := by
  have same : left = right := by
    cases left
    cases right
    cases sameAutomaton
    cases funext sameClosure
    rfl
  cases same
  constructor <;> intros <;> rfl

/-! ## What single states lead to -/

namespace Automaton

variable {automaton : Automaton} {state target : StateId}

theorem mem_closure_singleton :
    target ∈ automaton.closure {state} ↔
      Leads (fun source => automaton.targets source .epsilon) state target := by
  simp [mem_closure]

theorem eq_of_leads_of_not_mem (wellFormed : automaton.WellFormed)
    (outside : state ∉ automaton.states)
    (path : Leads (fun source => automaton.targets source .epsilon) state target) :
    target = state := by
  cases path with
  | refl => rfl
  | step next _ => exact absurd (wellFormed.source_mem _ (mem_targets.mp next)) outside

end Automaton

/-! ## The rows of the table -/

namespace ClosureTable

variable {automaton : Automaton} {state target : StateId}

theorem mem_targets_rows :
    target ∈ (ofAutomaton automaton).rows.targets state ↔
      state ∈ automaton.states ∧ target ∈ automaton.closure {state} := by
  simp only [ofAutomaton, StateRelation.mem_targets_ofRows, List.mem_map,
    Std.ExtTreeSet.mem_toList]
  constructor
  · intro listed
    rcases listed with ⟨_, ⟨source, member, rfl⟩, rfl, closed⟩
    exact ⟨member, closed⟩
  · intro row
    rcases row with ⟨member, closed⟩
    exact ⟨_, ⟨state, member, rfl⟩, rfl, closed⟩

theorem closureOf?_of_mem (member : state ∈ automaton.states) :
    (ofAutomaton automaton).closureOf? state = some (automaton.closure {state}) := by
  have row : (ofAutomaton automaton).rows.targets state = automaton.closure {state} := by
    apply StateSet.ext
    intro target
    rw [mem_targets_rows, and_iff_right member]
  have self : state ∈ automaton.closure {state} :=
    Automaton.mem_closure_singleton.mpr (.refl state)
  rw [closureOf?, StateRelation.row?_eq, row, if_neg (Std.ExtTreeSet.ne_empty_of_mem self)]

theorem closureOf?_of_not_mem (outside : state ∉ automaton.states) :
    (ofAutomaton automaton).closureOf? state = none := by
  have row : (ofAutomaton automaton).rows.targets state = ∅ := by
    apply StateSet.ext
    intro target
    rw [mem_targets_rows]
    simp [outside]
  rw [closureOf?, StateRelation.row?_eq, if_pos row]

theorem closure_eq (wellFormed : automaton.WellFormed) (states : StateSet) :
    (ofAutomaton automaton).closure states = automaton.closure states := by
  apply StateSet.ext
  intro target
  rw [closure, Std.ExtTreeSet.mem_union_iff, StateSet.mem_bind, Automaton.mem_closure]
  constructor
  · intro listed
    rcases listed with member | ⟨source, member, row⟩
    · exact ⟨target, member, .refl target⟩
    · exact ⟨source, member, Automaton.mem_closure_singleton.mp (mem_targets_rows.mp row).2⟩
  · intro led
    rcases led with ⟨source, member, path⟩
    by_cases inside : source ∈ automaton.states
    · have closed := Automaton.mem_closure_singleton.mpr path
      exact .inr ⟨source, member, mem_targets_rows.mpr ⟨inside, closed⟩⟩
    · rw [Automaton.eq_of_leads_of_not_mem wellFormed inside path]
      exact .inl member

/-- A closure table gives the same answers as a search for closures, for all sets of states, also
those with members outside the automaton; and it has one row for each state of the automaton. -/
theorem agree_ofAutomaton {automaton : Automaton} (wellFormed : automaton.WellFormed) :
    (ofAutomaton automaton).simulator.Agree automaton.simulator ∧
    (∀ state ∈ automaton.states,
      (ofAutomaton automaton).closureOf? state = some (automaton.closure {state})) ∧
    ∀ state, state ∉ automaton.states → (ofAutomaton automaton).closureOf? state = none := by
  refine ⟨?_, ?_, ?_⟩
  · exact Simulator.agree_of_closure rfl (closure_eq wellFormed)
  · exact fun _ member => closureOf?_of_mem member
  · exact fun _ outside => closureOf?_of_not_mem outside

/-- Two states that epsilon edges lead round in a circle, and a third behind them. -/
def circle : Automaton where
  states := .ofList [.first, .next .first, .last]
  alphabet := .ofList ['a']
  initial := .first
  accepting := {.last}
  transitions := .ofRows
    [(⟨.first, .epsilon⟩, {.next .first}), (⟨.next .first, .epsilon⟩, {.first}),
      (⟨.next .first, .literal 'a'⟩, {.last})]

theorem agree_ofAutomaton_circle :
    circle.WellFormed ∧
      (ofAutomaton circle).closure (.ofList [.first, .next (.next .first)]) =
        .ofList [.first, .next .first, .next (.next .first)] ∧
      (ofAutomaton circle).simulator.accepts ['a'] = true ∧
      (ofAutomaton circle).simulator.accepts ['a', 'a'] = false ∧
      (ofAutomaton circle).closureOf? .first = some (.ofList [.first, .next .first]) ∧
      (ofAutomaton circle).closureOf? (.next (.next .first)) = none := by
  have wellFormed : circle.WellFormed := by decide +kernel
  rcases agree_ofAutomaton wellFormed with ⟨agree, inside, outside⟩
  refine ⟨wellFormed, ?_, ?_, ?_, ?_, ?_⟩
  · exact (agree.closure _).trans (by decide +kernel)
  · exact (agree.accepts ['a']).trans (by decide +kernel)
  · exact (agree.accepts ['a', 'a']).trans (by decide +kernel)
  · exact (inside .first (by decide +kernel)).trans (by decide +kernel)
  · exact outside (.next (.next .first)) (by decide +kernel)

end ClosureTable

end EpsilonAutomata
