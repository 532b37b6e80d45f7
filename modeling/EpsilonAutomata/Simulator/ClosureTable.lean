import EpsilonAutomata.Simulator

/-!
Closures found in advance.

A closure table holds the epsilon closure of each single state of an automaton. The closure of a
set is then the union of the rows of its members.
-/

namespace EpsilonAutomata

structure ClosureTable where
  automaton : Automaton
  rows : StateRelation StateId

namespace ClosureTable

def ofAutomaton (automaton : Automaton) : ClosureTable where
  automaton := automaton
  rows := .ofRows <| automaton.states.toList.map fun state => (state, automaton.closure {state})

/-- The closure of one state of the automaton. -/
def closureOf? (table : ClosureTable) (state : StateId) : Option StateSet :=
  table.rows.row? state

/-- A state without a row stands for itself only. -/
def closure (table : ClosureTable) (states : StateSet) : StateSet :=
  states ∪ states.bind table.rows.targets

def simulator (table : ClosureTable) : Simulator :=
  ⟨table.automaton, table.closure⟩

end ClosureTable

end EpsilonAutomata
