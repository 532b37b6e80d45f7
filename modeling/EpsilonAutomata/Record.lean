import EpsilonAutomata.Draft.Edit

/-!
Flat descriptions of automata.

A record lists the parts of an automaton, in any order and with repeats. A record is loaded only if
nothing is wrong with it, and otherwise everything that is wrong with it is reported at once
(`Record.violations`). The other way to read a record is as a list of edits, `Record.edits`.
-/

namespace EpsilonAutomata

structure RecordRow where
  source : StateId
  symbol : Symbol
  targets : List StateId

structure Record where
  states : List StateId
  alphabet : List Char
  initial : StateId
  accepting : List StateId
  transitions : List RecordRow

namespace Record

/-- The members of a list that were listed before, given the ones that were `seen` already. -/
def repeats (seen : StateSet) : List StateId → List StateId
  | [] => []
  | state :: rest =>
      if seen.contains state then state :: repeats seen rest
      else repeats (seen.insert state) rest

/-- The states that the rest of a record refers to, in order. -/
def mentions (record : Record) : List StateId :=
  record.initial :: record.accepting ++
    record.transitions.flatMap fun row => row.source :: row.targets

/-- Everything that is wrong: first each repeated state, then each reference to a state that is not
listed. -/
def violations (record : Record) : List ConstructionError :=
  let known := StateSet.ofList record.states
  (repeats ∅ record.states).map .duplicateState ++
    (record.mentions.filter fun state => !known.contains state).map .unknownState

example : violations ⟨[.first, .first], [], .last, [.first], [⟨.first, .epsilon, [.last]⟩]⟩ =
    [.duplicateState .first, .unknownState .last, .unknownState .last] := by decide +kernel

/-- The label of a row joins the alphabet, unless the row has no targets. -/
def addLabel (alphabet : Alphabet) (row : RecordRow) : Alphabet :=
  if row.targets.isEmpty then alphabet else alphabet.insertSymbol row.symbol

/-- The edges of a row join the transitions. Without targets the row is passed over. -/
def addRow (transitions : Transitions) (row : RecordRow) : Transitions :=
  if row.targets.isEmpty then transitions
  else transitions.add row.source row.symbol (.ofList row.targets)

def fullAlphabet (record : Record) : Alphabet :=
  record.transitions.foldl addLabel (.ofList record.alphabet)

def assemble (record : Record) : Automaton where
  states := .ofList record.states
  alphabet := record.fullAlphabet
  initial := record.initial
  accepting := .ofList record.accepting
  transitions := record.transitions.foldl addRow ∅

def toAutomaton (record : Record) : Except ConstructionError Automaton :=
  match record.violations with
  | [] => .ok record.assemble
  | violations => .error (.invalid violations)

/-- The steps that construct, from a blank draft, what the record describes. -/
def edits (record : Record) : List Edit :=
  record.states.map .addState ++
  record.alphabet.map .declare ++
  .setInitial record.initial ::
  record.accepting.map .addAccepting ++
  record.transitions.map fun row => .addTransition row.source row.symbol (.ofList row.targets)

/-- The record of an automaton lists each part once and in ascending order. -/
def ofAutomaton (automaton : Automaton) : Record where
  states := automaton.states.toList
  alphabet := automaton.alphabet.toList
  initial := automaton.initial
  accepting := automaton.accepting.toList
  transitions := automaton.transitions.entries.map fun (move, targets) =>
    ⟨move.source, move.symbol, targets.toList⟩

end Record

end EpsilonAutomata
