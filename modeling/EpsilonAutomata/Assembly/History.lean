import EpsilonAutomata.Assembly.Lemmas

/-!
What is asked of an assembly, as data.

A `Request` is one change to an assembly with its arguments. A `History` is an assembly together with
the states that it has handed out so far, and the requests that refer to states are to refer to these
(`Assembly.History.Admits`).

To embed an automaton is to number its states and then to look up the number of each state that it
refers to. `Assembly.embedByLookup` says what happens to references that are not found: edges and
accepting states are left out, and the initial state becomes the first one of the block.
-/

namespace EpsilonAutomata

/-! ## Looking up numbers -/

namespace Numbering

/-- The copies of the members that have a number. -/
def copies (numbering : Numbering) (states : StateSet) : StateSet :=
  .ofList (states.toList.filterMap fun state => numbering[state]?)

/-- Adds the copy of a row, unless its state has no number or none of its targets has. -/
def copyRow (numbering : Numbering) (transitions : Transitions) (row : Move × StateSet) :
    Transitions :=
  match numbering[row.1.source]? with
  | none => transitions
  | some source =>
      let targets := numbering.copies row.2
      if targets.isEmpty then transitions else transitions.add source row.1.symbol targets

end Numbering

namespace Assembly

/-- Copies an automaton one row of edges after the other. -/
def embedByLookup (assembly : Assembly) (source : Automaton) (keepAccepting : Bool) :
    Block × Assembly :=
  let offset := assembly.next
  let (numbering, assembly) := assembly.allocateEach source.states.toList
  let accepting := numbering.copies source.accepting
  ({ offset := offset
     initial := numbering[source.initial]?.getD offset
     accepting := accepting },
   { assembly with
     alphabet := assembly.alphabet ∪ source.alphabet
     accepting := if keepAccepting then assembly.accepting ∪ accepting else assembly.accepting
     transitions := source.transitions.entries.foldl numbering.copyRow assembly.transitions })

/-! ## Requests -/

inductive Request where
  | allocate
  | embed (source : Automaton) (keepAccepting : Bool)
  | addEpsilon (source target : StateId)
  | setAccepting (state : StateId)

/-- The number of states that a request takes. -/
def Request.size : Request → Nat
  | .allocate => 1
  | .embed source _ => source.stateCount
  | .addEpsilon _ _ => 0
  | .setAccepting _ => 0

def totalSize : List Request → Nat
  | [] => 0
  | request :: rest => request.size + totalSize rest

/-- The states that are handed out on a request, in order. -/
def handOut (assembly : Assembly) : Request → List StateId
  | .allocate => [assembly.allocate.1]
  | .embed source _ => source.states.toList.map (assembly.copy source)
  | .addEpsilon _ _ => []
  | .setAccepting _ => []

def serve (assembly : Assembly) : Request → Assembly
  | .allocate => assembly.allocate.2
  | .embed source keepAccepting => (assembly.embed source keepAccepting).2
  | .addEpsilon source target => assembly.addEpsilon source target
  | .setAccepting state => assembly.setAccepting state

structure History where
  assembly : Assembly
  /-- All states that were handed out, in order. -/
  handedOut : List StateId

namespace History

def startingAt (first : StateId) : History :=
  ⟨Assembly.startingAt first, []⟩

def serve (history : History) (request : Request) : History where
  assembly := history.assembly.serve request
  handedOut := history.handedOut ++ history.assembly.handOut request

def serveAll (history : History) (requests : List Request) : History :=
  requests.foldl serve history

/-- Automata are well-formed, and other requests refer to states that were handed out. -/
def Admits (history : History) : Request → Prop
  | .allocate => True
  | .embed source _ => source.WellFormed
  | .addEpsilon source target => source ∈ history.handedOut ∧ target ∈ history.handedOut
  | .setAccepting state => state ∈ history.handedOut

/-- Each request is admitted when its turn comes. -/
def AdmitsAll (history : History) : List Request → Prop
  | [] => True
  | request :: rest => history.Admits request ∧ (history.serve request).AdmitsAll rest

instance (history : History) (request : Request) : Decidable (history.Admits request) :=
  match request with
  | .allocate => inferInstanceAs (Decidable True)
  | .embed source _ => inferInstanceAs (Decidable source.WellFormed)
  | .addEpsilon source target =>
      inferInstanceAs (Decidable (source ∈ history.handedOut ∧ target ∈ history.handedOut))
  | .setAccepting state => inferInstanceAs (Decidable (state ∈ history.handedOut))

def decideAdmitsAll (history : History) :
    (requests : List Request) → Decidable (history.AdmitsAll requests)
  | [] => inferInstanceAs (Decidable True)
  | request :: rest =>
      have := (history.serve request).decideAdmitsAll rest
      inferInstanceAs (Decidable (history.Admits request ∧ (history.serve request).AdmitsAll rest))

instance (history : History) (requests : List Request) : Decidable (history.AdmitsAll requests) :=
  history.decideAdmitsAll requests

end History

end Assembly

end EpsilonAutomata
