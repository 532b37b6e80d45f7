import EpsilonAutomata.Automaton

/-!
One state space for several automata.

An assembly hands out states in ascending order. An automaton is embedded by copying it onto states
that are newly handed out, in ascending order on both sides, so the copies of two automata have no
state in common whatever states the automata had.
-/

namespace EpsilonAutomata

structure Assembly where
  /-- The state that is handed out next. -/
  next : StateId
  states : StateSet
  alphabet : Alphabet
  accepting : StateSet
  transitions : Transitions

/-- The state of an assembly that is the copy of each embedded state. -/
abbrev Numbering := Std.ExtTreeMap StateId StateId

/-- The copy of a state. A state that was given no number is its own copy. -/
def Numbering.copy (numbering : Numbering) (state : StateId) : StateId :=
  numbering.getD state state

/-- Where the parts of an embedded automaton are. -/
structure Block where
  offset : StateId
  initial : StateId
  accepting : StateSet

namespace Assembly

/-- An assembly that hands out states from `first` on. -/
def startingAt (first : StateId) : Assembly where
  next := first
  states := ∅
  alphabet := ∅
  accepting := ∅
  transitions := ∅

def blank : Assembly :=
  startingAt .first

/-- Hands out one state. After the last state there is no other, so callers see to it that they do
not ask for more. -/
def allocate (assembly : Assembly) : StateId × Assembly :=
  (assembly.next,
    { assembly with next := assembly.next.next, states := assembly.states.insert assembly.next })

/-- Hands out the copy of one more state. -/
def allocateCopy (copies : Numbering × Assembly) (state : StateId) : Numbering × Assembly :=
  (copies.1.insert state copies.2.next, copies.2.allocate.2)

/-- Hands out one state for each member of a list. -/
def allocateEach (assembly : Assembly) (members : List StateId) : Numbering × Assembly :=
  members.foldl allocateCopy (∅, assembly)

/-- Copies the states, edges and characters of an automaton. Its accepting states accept in the
assembly only if `keepAccepting` is set; the block tells their copies in either case. -/
def embed (assembly : Assembly) (source : Automaton) (keepAccepting : Bool) : Block × Assembly :=
  let offset := assembly.next
  let (numbering, assembly) := assembly.allocateEach source.states.toList
  let accepting := source.accepting.map numbering.copy
  ({ offset := offset
     initial := numbering.copy source.initial
     accepting := accepting },
   { assembly with
     alphabet := assembly.alphabet ∪ source.alphabet
     accepting := if keepAccepting then assembly.accepting ∪ accepting else assembly.accepting
     transitions := assembly.transitions.union (source.transitions.relabel numbering.copy) })

def addEpsilon (assembly : Assembly) (source target : StateId) : Assembly :=
  { assembly with transitions := assembly.transitions.addEdge ⟨source, .epsilon, target⟩ }

/-- Epsilon edges from every member of a set. -/
def addEpsilons (assembly : Assembly) (sources : StateSet) (target : StateId) : Assembly :=
  sources.foldl (fun assembly source => assembly.addEpsilon source target) assembly

def setAccepting (assembly : Assembly) (state : StateId) : Assembly :=
  { assembly with accepting := assembly.accepting.insert state }

/-- The assembly as an automaton that starts in one of its states. -/
def finish (assembly : Assembly) (initial : StateId) : Automaton where
  states := assembly.states
  alphabet := assembly.alphabet
  initial := initial
  accepting := assembly.accepting
  transitions := assembly.transitions

end Assembly

end EpsilonAutomata
