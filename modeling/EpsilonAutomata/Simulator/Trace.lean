import EpsilonAutomata.Simulator

/-!
Reading a word one step at a time.

A trace yields the situation before the first character and after each character, and then nothing
more. Unlike a plain reading it goes on to the end of the word when no state is active.
-/

namespace EpsilonAutomata

structure TraceStep where
  active : StateSet
  consumed : Option Char
  remaining : Word
  accepting : Bool

namespace TraceStep

def isLast (step : TraceStep) : Bool :=
  step.remaining.isEmpty

end TraceStep

structure Trace where
  simulator : Simulator
  /-- The part of the word that no step has consumed. -/
  remaining : Word
  /-- The active states of the step yielded last. There are none before the first step, and none
  are kept once the word has been found to be at its end. -/
  active : Option StateSet
  finished : Bool

namespace Trace

def start (simulator : Simulator) (word : Word) : Trace where
  simulator := simulator
  remaining := word
  active := none
  finished := false

/-- Yields a step with these active states, and keeps them for the next one. -/
def emit (trace : Trace) (active : StateSet) (consumed : Option Char) (remaining : Word) :
    Option TraceStep × Trace :=
  (some
    { active := active
      consumed := consumed
      remaining := remaining
      accepting := trace.simulator.isAcceptingSet active },
    { trace with remaining := remaining, active := some active })

/-- Takes the next step, if there is one. That there is none is noticed by the first pull that finds
the word at its end; from then on the trace stays as it is. -/
def pull (trace : Trace) : Option TraceStep × Trace :=
  if trace.finished then (none, trace)
  else
    match trace.active, trace.remaining with
    | none, remaining => trace.emit trace.simulator.initialClosure none remaining
    | some _, [] => (none, { trace with active := none, finished := true })
    | some previous, character :: rest =>
        trace.emit (trace.simulator.stepClosed previous character) (some character) rest

/-- The number of steps still to come. -/
def length (trace : Trace) : Nat :=
  if trace.finished then 0
  else trace.remaining.length + if trace.active.isNone then 1 else 0

/-- What is yielded after a number of earlier pulls. -/
def item (trace : Trace) : Nat → Option TraceStep
  | 0 => trace.pull.1
  | earlier + 1 => trace.pull.2.item earlier

/-- The trace after a number of pulls. -/
def afterPulls (trace : Trace) : Nat → Trace
  | 0 => trace
  | pulls + 1 => (trace.afterPulls pulls).pull.2

end Trace

def Simulator.trace (simulator : Simulator) (word : Word) : Trace :=
  .start simulator word

end EpsilonAutomata
