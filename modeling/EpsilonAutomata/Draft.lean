import EpsilonAutomata.Automaton
import EpsilonAutomata.ConstructionError

/-!
Automata under construction.

A draft grows by single steps. Each step that refers to a state checks that the draft has it, so an
automaton built from a draft refers to its own states only. A draft with a closed alphabet admits
no literal that was not declared; an open alphabet takes up the literals of new edges.
-/

namespace EpsilonAutomata

structure Draft where
  states : StateSet
  alphabet : Alphabet
  closedAlphabet : Bool
  initial : Option StateId
  accepting : StateSet
  transitions : Transitions

namespace Draft

instance : DecidableEq Draft := fun left right =>
  decidable_of_iff
    (left.states = right.states ∧ left.alphabet = right.alphabet ∧
      left.closedAlphabet = right.closedAlphabet ∧ left.initial = right.initial ∧
      left.accepting = right.accepting ∧ left.transitions = right.transitions)
    (by
      cases left
      cases right
      simp only [mk.injEq])

def blank : Draft where
  states := ∅
  alphabet := ∅
  closedAlphabet := false
  initial := none
  accepting := ∅
  transitions := ∅

/-- An empty draft whose alphabet is closed. -/
def withAlphabet (characters : List Char) : Draft :=
  { blank with alphabet := .ofList characters, closedAlphabet := true }

/-- A finished automaton, opened again. Its alphabet is open. -/
def ofAutomaton (automaton : Automaton) : Draft where
  states := automaton.states
  alphabet := automaton.alphabet
  closedAlphabet := false
  initial := some automaton.initial
  accepting := automaton.accepting
  transitions := automaton.transitions

/-! ## Checks -/

/-- The first of some states that the draft does not have. -/
def missing? (draft : Draft) (wanted : List StateId) : Option StateId :=
  wanted.find? fun state => !draft.states.contains state

/-- The character on a label, if the draft refuses it. -/
def foreign? (draft : Draft) : Symbol → Option Char
  | .epsilon => none
  | .literal character =>
      if draft.closedAlphabet && !draft.alphabet.contains character then some character else none

/-! ## States and symbols -/

def declare (draft : Draft) (character : Char) : Draft :=
  { draft with alphabet := draft.alphabet.insert character }

def addState (draft : Draft) (state : StateId) : Except ConstructionError Draft :=
  if draft.states.contains state then .error (.duplicateState state)
  else .ok { draft with states := draft.states.insert state }

/-- Adds a state unless the draft has it already. -/
def ensureState (draft : Draft) (state : StateId) : Draft :=
  { draft with states := draft.states.insert state }

/-- The first unused state among `count` indices from `start` on. -/
def findUnused? (used : StateSet) : (count start : Nat) → Option StateId
  | 0, _ => none
  | count + 1, start =>
      match StateId.ofIndex? start with
      | none => none
      | some state =>
          if used.contains state then findUnused? used count (start + 1) else some state

/-- The state that comes next: the first unused one whose index is not below the number of states,
or failing that the first unused one of all. -/
def nextState? (draft : Draft) : Option StateId :=
  let start := min draft.states.size StateId.last.index
  findUnused? draft.states (4294967296 - start) start <|> findUnused? draft.states start 0

example : (blank.ensureState ⟨1, by decide⟩).nextState? = some ⟨2, by decide⟩ := by decide +kernel

def addNextState (draft : Draft) : Except ConstructionError (StateId × Draft) :=
  match draft.nextState? with
  | none => .error .noStateLeft
  | some state => .ok (state, { draft with states := draft.states.insert state })

def setInitial (draft : Draft) (state : StateId) : Except ConstructionError Draft :=
  match draft.missing? [state] with
  | some missing => .error (.unknownState missing)
  | none => .ok { draft with initial := some state }

def addAccepting (draft : Draft) (state : StateId) : Except ConstructionError Draft :=
  match draft.missing? [state] with
  | some missing => .error (.unknownState missing)
  | none => .ok { draft with accepting := draft.accepting.insert state }

/-! ## Edges -/

/-- Adds the edges from `source` to all of `targets`. An empty set of targets is checked like any
other, but then neither an edge nor a character is added. -/
def addTransition (draft : Draft) (source : StateId) (symbol : Symbol) (targets : StateSet) :
    Except ConstructionError Draft :=
  match draft.missing? (source :: targets.toList), draft.foreign? symbol with
  | some missing, _ => .error (.unknownState missing)
  | none, some character => .error (.foreignSymbol character)
  | none, none =>
      if targets.isEmpty then .ok draft
      else
        .ok { draft with
              alphabet := draft.alphabet.insertSymbol symbol
              transitions := draft.transitions.add source symbol targets }

/-! ## Renaming -/

def replace (old new state : StateId) : StateId :=
  if state = old then new else state

/-- The image of everything in a draft under a map of its states. -/
def relabel (draft : Draft) (transform : StateId → StateId) : Draft :=
  { draft with
    states := draft.states.map transform
    initial := draft.initial.map transform
    accepting := draft.accepting.map transform
    transitions := draft.transitions.relabel transform }

/-- Gives a state another name, wherever the draft refers to it. -/
def renameState (draft : Draft) (old new : StateId) : Except ConstructionError Draft :=
  match draft.missing? [old] with
  | some missing => .error (.unknownState missing)
  | none =>
      if old = new then .ok draft
      else if draft.states.contains new then .error (.duplicateState new)
      else .ok (draft.relabel (replace old new))

/-! ## Completion -/

def build (draft : Draft) : Except ConstructionError Automaton :=
  match draft.initial with
  | none => .error .noInitialState
  | some initial =>
      .ok
        { states := draft.states
          alphabet := draft.alphabet
          initial := initial
          accepting := draft.accepting
          transitions := draft.transitions }

theorem build_ofAutomaton (automaton : Automaton) : (ofAutomaton automaton).build = .ok automaton :=
  rfl

end Draft

end EpsilonAutomata
