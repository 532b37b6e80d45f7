import EpsilonAutomata.Assembly

/-!
Automata for the union, the concatenation and the iteration of languages.

Each combination embeds its arguments in an assembly and joins the copies by epsilon edges.
-/

namespace EpsilonAutomata

namespace Automaton

/-- Accepts what either automaton accepts: a new initial state leads to both copies. -/
def union (left right : Automaton) : Automaton :=
  let (start, assembly) := Assembly.blank.allocate
  let (leftBlock, assembly) := assembly.embed left true
  let (rightBlock, assembly) := assembly.embed right true
  ((assembly.addEpsilon start leftBlock.initial).addEpsilon start rightBlock.initial).finish start

/-- Accepts a word of the first automaton followed by a word of the second: the accepting states of
the first copy lead to the initial state of the second instead of accepting. -/
def concat (left right : Automaton) : Automaton :=
  let (leftBlock, assembly) := Assembly.blank.embed left false
  let (rightBlock, assembly) := assembly.embed right true
  (assembly.addEpsilons leftBlock.accepting rightBlock.initial).finish leftBlock.initial

/-- Accepts any number of words of the automaton in a row. A new hub is initial, accepts, and leads
into the copy, whose accepting states lead back to its initial state and to the hub. -/
def star (inner : Automaton) : Automaton :=
  let (hub, assembly) := Assembly.blank.allocate
  let (body, assembly) := assembly.embed inner true
  let assembly := (assembly.setAccepting hub).addEpsilon hub body.initial
  ((assembly.addEpsilons body.accepting body.initial).addEpsilons body.accepting hub).finish hub

example : (symbol 'a').star.edges =
    [⟨.first, .epsilon, ⟨1, by decide⟩⟩,
      ⟨⟨1, by decide⟩, .literal 'a', ⟨2, by decide⟩⟩,
      ⟨⟨2, by decide⟩, .epsilon, .first⟩,
      ⟨⟨2, by decide⟩, .epsilon, ⟨1, by decide⟩⟩] := by decide +kernel

/-- Accepts the empty word as well. -/
def optional (inner : Automaton) : Automaton :=
  inner.union .epsilon

/-- Accepts one or more words of the automaton in a row. -/
def plus (inner : Automaton) : Automaton :=
  inner.concat inner.star

/-- The union from left to right; of no automata, the one that accepts nothing. -/
def unionAll : List Automaton → Automaton
  | [] => .empty
  | first :: rest => rest.foldl union first

/-- The concatenation from left to right; of no automata, the one that accepts the empty word. -/
def concatAll : List Automaton → Automaton
  | [] => .epsilon
  | first :: rest => rest.foldl concat first

/-- The automaton with its states numbered anew from `start` on, in the same order. There is none
if the last number would be too large. -/
def renumbered (automaton : Automaton) (start : StateId) : Option Automaton :=
  if 0 < automaton.stateCount ∧ automaton.stateCount < 4294967296 ∧
      start.index + (automaton.stateCount - 1) < 4294967296 then
    let (block, assembly) := (Assembly.startingAt start).embed automaton true
    some (assembly.finish block.initial)
  else none

end Automaton

end EpsilonAutomata
