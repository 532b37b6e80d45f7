import EpsilonAutomata.Draft.Edit

/-!
Construction in place.

Here a draft is not replaced by another one but changed, one part at a time, and a step that fails
leaves behind what it has changed by then. Each step makes its checks in a fixed order, so the first
check that fails gives the error.
-/

namespace EpsilonAutomata

/-! ## Renaming, one part at a time -/

/-- One member gives way to another, if it is a member. -/
def StateSet.exchange (states : StateSet) (old new : StateId) : StateSet :=
  if states.contains old then (states.erase old).insert new else states

namespace Transitions

/-- The rows of one state become the rows of another, whose own rows are lost. Without rows to move
nothing happens. -/
def moveRows (transitions : Transitions) (old new : StateId) : Transitions :=
  match transitions.leaving old with
  | [] => transitions
  | rows =>
      (transitions.filterKeys fun move => move.source ≠ old && move.source ≠ new).insertMany
        (rows.map fun (symbol, targets) => (⟨new, symbol⟩, targets))

def exchangeTargets (transitions : Transitions) (old new : StateId) : Transitions :=
  .ofRows <| transitions.entries.map fun (move, targets) => (move, targets.exchange old new)

end Transitions

/-! ## Steps in place -/

/-- A step that changes a draft. A failure does not undo what was changed before it. -/
abbrev InPlace := ExceptT ConstructionError (StateM Draft)

namespace InPlace

/-- The outcome of a step, and the draft that it leaves behind. -/
def on {α : Type} (step : InPlace α) (draft : Draft) : Except ConstructionError α × Draft :=
  (step.run.run draft).run

def requireState (state : StateId) : InPlace Unit := do
  unless (← get).states.contains state do
    throw (.unknownState state)

def requireStates (states : List StateId) : InPlace Unit :=
  states.forM requireState

def requireSymbol (symbol : Symbol) : InPlace Unit := do
  if let some character := (← get).foreign? symbol then
    throw (.foreignSymbol character)

def declare (character : Char) : InPlace Unit :=
  modify fun draft => { draft with alphabet := draft.alphabet.insert character }

/-- The states tell whether the state is known as they take it up. -/
def addState (state : StateId) : InPlace Unit := do
  let known ← modifyGet fun draft =>
    let (known, states) := draft.states.containsThenInsert state
    (known, { draft with states := states })
  if known then throw (.duplicateState state)

def addNextState : InPlace StateId := do
  match (← get).nextState? with
  | none => throw .noStateLeft
  | some state =>
      modify fun draft => { draft with states := draft.states.insert state }
      return state

def setInitial (state : StateId) : InPlace Unit := do
  requireState state
  modify fun draft => { draft with initial := some state }

def addAccepting (state : StateId) : InPlace Unit := do
  requireState state
  modify fun draft => { draft with accepting := draft.accepting.insert state }

def addTransition (source : StateId) (symbol : Symbol) (targets : StateSet) : InPlace Unit := do
  requireState source
  requireStates targets.toList
  requireSymbol symbol
  unless targets.isEmpty do
    modify fun draft => { draft with alphabet := draft.alphabet.insertSymbol symbol }
    modify fun draft => { draft with transitions := draft.transitions.add source symbol targets }

/-- Gives a state another name, in one part of the draft after the other. -/
def exchange (old new : StateId) : InPlace Unit := do
  modify fun draft => { draft with states := draft.states.exchange old new }
  modify fun draft => { draft with accepting := draft.accepting.exchange old new }
  modify fun draft => { draft with initial := draft.initial.map (Draft.replace old new) }
  modify fun draft => { draft with transitions := draft.transitions.moveRows old new }
  modify fun draft => { draft with transitions := draft.transitions.exchangeTargets old new }

def requireFree (state : StateId) : InPlace Unit := do
  if (← get).states.contains state then
    throw (.duplicateState state)

def renameState (old new : StateId) : InPlace Unit := do
  requireState old
  unless old = new do
    requireFree new
    exchange old new

def perform : Edit → InPlace Unit
  | .declare character => declare character
  | .addState state => addState state
  | .addNextState => do let _ ← addNextState
  | .setInitial state => setInitial state
  | .addAccepting state => addAccepting state
  | .addTransition source symbol targets => addTransition source symbol targets
  | .renameState old new => renameState old new

/-- What is left of a draft after a list of edits, where a failure does not keep the next edit from
being tried. -/
def afterAll (edits : List Edit) (draft : Draft) : Draft :=
  edits.foldl (fun draft edit => ((perform edit).on draft).2) draft

end InPlace

end EpsilonAutomata
