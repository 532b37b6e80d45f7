import EpsilonAutomata.Draft

/-!
Automata given by their edges.

The states are added as they are mentioned: the initial state first, if one is given, and the endpoints
of an edge before the edge. Where no initial state is given it is the source of the first edge.
-/

namespace EpsilonAutomata

namespace Draft

/-- Adds a state that has not been mentioned before. -/
def mention (draft : Draft) (state : StateId) : Except ConstructionError Draft :=
  if draft.states.contains state then .ok draft else draft.addState state

def connect (draft : Draft) (edge : Edge) : Except ConstructionError Draft := do
  let draft ← draft.mention edge.source
  let draft ← draft.mention edge.target
  draft.addTransition edge.source edge.symbol {edge.target}

/-- Adds edges one after the other. The first one provides the initial state if none is chosen. -/
def connectAll (draft : Draft) (initial : Option StateId) :
    List Edge → Except ConstructionError (Draft × Option StateId)
  | [] => .ok (draft, initial)
  | edge :: rest => do
      let draft ← draft.connect edge
      draft.connectAll (initial.or (some edge.source)) rest

end Draft

namespace Automaton

def ofEdges (initial : Option StateId) (edges : List Edge) (accepting : List StateId) :
    Except ConstructionError Automaton := do
  let draft ← initial.toList.foldlM Draft.addState .blank
  let (draft, initial) ← draft.connectAll initial edges
  match initial with
  | none => .error .noInitialState
  | some start =>
      let draft ← draft.setInitial start
      let draft ← accepting.foldlM Draft.addAccepting draft
      draft.build

end Automaton

end EpsilonAutomata
