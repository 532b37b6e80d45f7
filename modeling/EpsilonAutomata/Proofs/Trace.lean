import EpsilonAutomata.Proofs.Simulation
import EpsilonAutomata.Simulator.ClosureTable
import EpsilonAutomata.Simulator.Trace

/-!
A trace shows the run of a word, prefix by prefix.

What a trace yields after some pulls is what a reading of that many characters from the start leads
to (`Simulator.situation`). The reading of a prefix stops when no state is active and the trace does
not, which comes to the same, since nothing follows from no state. All that a pull can do is said by
four lemmas: one for the start, one inside the word, one at its end and one past it. They place the
trace after any number of pulls, and with it each item and the length.
-/

namespace EpsilonAutomata

namespace Simulator

/-- What reading the first characters of a word leads to, as a step of a trace. -/
def situation (simulator : Simulator) (word : Word) (position : Nat) : TraceStep where
  active := simulator.extended {simulator.automaton.initial} (word.take position)
  consumed :=
    match position with
    | 0 => none
    | earlier + 1 => word[earlier]?
  remaining := word.drop position
  accepting := simulator.accepts (word.take position)

/-- The traces of a simulator have one step for each prefix of the word, the empty one and the word
itself included, and nothing after that; and they always know how many steps are to come. -/
structure TracesPrefixes (simulator : Simulator) : Prop where
  item : ∀ word position, position ≤ word.length →
    (simulator.trace word).item position = some (simulator.situation word position)
  ended : ∀ word position, word.length < position → (simulator.trace word).item position = none
  isLast : ∀ word position step, (simulator.trace word).item position = some step →
    (step.isLast = true ↔ position = word.length)
  length : ∀ word pulls,
    ((simulator.trace word).afterPulls pulls).length = word.length + 1 - pulls

theorem isLast_situation (simulator : Simulator) {word : Word} {position : Nat}
    (within : position ≤ word.length) :
    (simulator.situation word position).isLast = true ↔ position = word.length := by
  change (word.drop position).isEmpty = true ↔ position = word.length
  rw [List.isEmpty_iff, List.drop_eq_nil_iff, Nat.le_antisymm_iff, and_iff_right within]

end Simulator

namespace Trace

/-! ## Single pulls -/

/-- The trace of a word that has yielded the steps up to a position. -/
def standing (simulator : Simulator) (word : Word) (position : Nat) : Trace where
  simulator := simulator
  remaining := word.drop position
  active := some (simulator.extended {simulator.automaton.initial} (word.take position))
  finished := false

/-- The trace of any word that has found the word to be at its end. -/
def ended (simulator : Simulator) : Trace where
  simulator := simulator
  remaining := []
  active := none
  finished := true

variable {simulator : Simulator} {word : Word} {position : Nat}

theorem pull_start :
    (start simulator word).pull =
      (some (simulator.situation word 0), standing simulator word 0) := rfl

theorem pull_standing (closure_empty : simulator.closure ∅ = ∅) (inside : position < word.length) :
    (standing simulator word position).pull =
      (some (simulator.situation word (position + 1)),
        standing simulator word (position + 1)) := by
  have remaining : word.drop position = word[position] :: word.drop (position + 1) :=
    List.drop_eq_getElem_cons inside
  have active : simulator.extended {simulator.automaton.initial} (word.take (position + 1)) =
      simulator.stepClosed
        (simulator.extended {simulator.automaton.initial} (word.take position)) word[position] := by
    rw [← List.take_append_getElem inside, Simulator.extended_append closure_empty]
    rfl
  have consumed : word[position]? = some word[position] := List.getElem?_eq_getElem inside
  simp only [pull, standing, remaining, emit, Simulator.situation, Simulator.accepts,
    Simulator.acceptsFrom, active, consumed, Bool.false_eq_true, if_false]

theorem pull_standing_length :
    (standing simulator word word.length).pull = (none, ended simulator) := by
  simp only [pull, standing, List.drop_length, ended, Bool.false_eq_true, if_false]

theorem pull_ended : (ended simulator).pull = (none, ended simulator) := rfl

/-! ## Many pulls -/

theorem afterPulls_pull (trace : Trace) (pulls : Nat) :
    trace.pull.2.afterPulls pulls = trace.afterPulls (pulls + 1) := by
  induction pulls with
  | zero => rfl
  | succ pulls induction =>
      rw [afterPulls, induction]
      rfl

theorem item_eq_pull (trace : Trace) (earlier : Nat) :
    trace.item earlier = (trace.afterPulls earlier).pull.1 := by
  induction earlier generalizing trace with
  | zero => rfl
  | succ earlier induction => rw [item, induction, afterPulls_pull]

section

variable (closure_empty : simulator.closure ∅ = ∅)

include closure_empty

theorem afterPulls_of_le (within : position ≤ word.length) :
    (simulator.trace word).afterPulls (position + 1) = standing simulator word position := by
  induction position with
  | zero => rfl
  | succ position induction =>
      rw [afterPulls, induction (Nat.le_of_lt within), pull_standing closure_empty within]

theorem afterPulls_of_lt (past : word.length < position) :
    (simulator.trace word).afterPulls (position + 1) = ended simulator := by
  induction past with
  | refl => rw [afterPulls, afterPulls_of_le closure_empty (Nat.le_refl _), pull_standing_length]
  | step _ induction => rw [afterPulls, induction, pull_ended]

theorem item_of_le (within : position ≤ word.length) :
    (simulator.trace word).item position = some (simulator.situation word position) := by
  rw [item_eq_pull]
  cases position with
  | zero => exact congrArg Prod.fst pull_start
  | succ position =>
      rw [afterPulls_of_le closure_empty (Nat.le_of_lt within),
        pull_standing closure_empty within]

theorem item_of_lt (past : word.length < position) :
    (simulator.trace word).item position = none := by
  rw [item_eq_pull]
  cases position with
  | zero => cases past
  | succ position =>
      rcases Nat.eq_or_lt_of_le (Nat.le_of_lt_succ past) with equal | past
      · rw [← equal, afterPulls_of_le closure_empty (Nat.le_refl _), pull_standing_length]
      · rw [afterPulls_of_lt closure_empty past, pull_ended]

theorem isLast_of_item {step : TraceStep}
    (yielded : (simulator.trace word).item position = some step) :
    step.isLast = true ↔ position = word.length := by
  rcases Nat.lt_or_ge word.length position with past | within
  · rw [item_of_lt closure_empty past] at yielded
    cases yielded
  · rw [item_of_le closure_empty within] at yielded
    cases yielded
    exact simulator.isLast_situation within

theorem length_afterPulls (pulls : Nat) :
    ((simulator.trace word).afterPulls pulls).length = word.length + 1 - pulls := by
  cases pulls with
  | zero => rfl
  | succ pulls =>
      rw [Nat.add_sub_add_right]
      rcases Nat.lt_or_ge word.length pulls with past | within
      · rw [afterPulls_of_lt closure_empty past, Nat.sub_eq_zero_of_le (Nat.le_of_lt past)]
        rfl
      · rw [afterPulls_of_le closure_empty within]
        simp [length, standing]

end

end Trace

theorem Simulator.tracesPrefixes_of_closure_empty {simulator : Simulator}
    (closure_empty : simulator.closure ∅ = ∅) : simulator.TracesPrefixes where
  item _ _ within := Trace.item_of_le closure_empty within
  ended _ _ past := Trace.item_of_lt closure_empty past
  isLast _ _ _ yielded := Trace.isLast_of_item closure_empty yielded
  length _ pulls := Trace.length_afterPulls closure_empty pulls

theorem ClosureTable.closure_empty (table : ClosureTable) : table.closure ∅ = ∅ := by
  apply StateSet.ext
  intro state
  simp [closure, Std.ExtTreeSet.mem_union_iff]

/-- The traces of an automaton are its runs, whether closures are searched for or looked up. -/
theorem Automaton.tracesPrefixes (automaton : Automaton) :
    automaton.simulator.TracesPrefixes ∧
      (ClosureTable.ofAutomaton automaton).simulator.TracesPrefixes :=
  ⟨Simulator.tracesPrefixes_of_closure_empty automaton.closure_empty,
    Simulator.tracesPrefixes_of_closure_empty (ClosureTable.ofAutomaton automaton).closure_empty⟩

end EpsilonAutomata
