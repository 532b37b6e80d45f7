import EpsilonAutomata.Combination
import EpsilonAutomata.Draft.InPlace
import EpsilonAutomata.EdgeList
import EpsilonAutomata.JsonForm
import EpsilonAutomata.Reachability

/-!
Everything that can be asked of this library about making automata, as data.

A session holds the automata made so far and the drafts that are open. A call makes one more
automaton, opens a draft or edits one, and names by their positions the automata and drafts it works
on. A recipe that fails leaves the session as it is, as does a call that names a position where
nothing is. An edit changes its draft in place, and what it leaves behind stays, also if it fails.
-/

namespace EpsilonAutomata

/-- The ways to make an automaton. -/
inductive Recipe where
  | epsilon
  | empty
  | symbol (character : Char)
  | word (letters : Word)
  | ofEdges (initial : Option StateId) (edges : List Edge) (accepting : List StateId)
  | load (record : Record)
  | readJson (input : List Char)
  | union (left right : Nat)
  | concat (left right : Nat)
  | star (inner : Nat)
  | optional (inner : Nat)
  | plus (inner : Nat)
  | unionAll (parts : List Nat)
  | concatAll (parts : List Nat)
  | trimmed (source : Nat)
  | renumbered (source : Nat) (start : StateId)
  | build (draft : Nat)

inductive Call where
  | make (recipe : Recipe)
  | openBlank
  | openWithAlphabet (characters : List Char)
  | reopen (automaton : Nat)
  | edit (draft : Nat) (edit : Edit)

structure Session where
  automata : List Automaton
  drafts : List Draft

namespace Session

def blank : Session := ⟨[], []⟩

/-- The automaton that a recipe makes. In a list of parts, positions where nothing is are passed
over. -/
def make? (session : Session) : Recipe → Option Automaton
  | .epsilon => some .epsilon
  | .empty => some .empty
  | .symbol character => some (.symbol character)
  | .word letters => some (.word letters)
  | .ofEdges initial edges accepting => (Automaton.ofEdges initial edges accepting).toOption
  | .load record => record.toAutomaton.toOption
  | .readJson input => (Automaton.readJson input).toOption
  | .union left right => do
      return (← session.automata[left]?).union (← session.automata[right]?)
  | .concat left right => do
      return (← session.automata[left]?).concat (← session.automata[right]?)
  | .star inner => session.automata[inner]?.map .star
  | .optional inner => session.automata[inner]?.map .optional
  | .plus inner => session.automata[inner]?.map .plus
  | .unionAll parts => some (.unionAll (parts.filterMap (session.automata[·]?)))
  | .concatAll parts => some (.concatAll (parts.filterMap (session.automata[·]?)))
  | .trimmed source => session.automata[source]?.map .trimmed
  | .renumbered source start => session.automata[source]?.bind (·.renumbered start)
  | .build draft => session.drafts[draft]?.bind (·.build.toOption)

def keep (session : Session) (automaton : Automaton) : Session :=
  { session with automata := session.automata ++ [automaton] }

def openDraft (session : Session) (draft : Draft) : Session :=
  { session with drafts := session.drafts ++ [draft] }

def perform (session : Session) : Call → Session
  | .make recipe =>
      match session.make? recipe with
      | none => session
      | some automaton => session.keep automaton
  | .openBlank => session.openDraft .blank
  | .openWithAlphabet characters => session.openDraft (.withAlphabet characters)
  | .reopen automaton =>
      match session.automata[automaton]? with
      | none => session
      | some automaton => session.openDraft (.ofAutomaton automaton)
  | .edit position edit =>
      match session.drafts[position]? with
      | none => session
      | some draft =>
          let after := ((InPlace.perform edit).on draft).2
          { session with drafts := session.drafts.set position after }

/-- The session after some calls, from the start. -/
def run (calls : List Call) : Session :=
  calls.foldl perform blank

end Session

end EpsilonAutomata
