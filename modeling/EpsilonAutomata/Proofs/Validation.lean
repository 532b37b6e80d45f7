import EpsilonAutomata.Proofs.Serialization

/-!
A record that is not loaded is told everything that is wrong with it.

What is wrong with a record is said here by positions, without the set of states that grows while
the list of states is read: a state is listed again if it stands at an earlier position of the same
list, and a reference is dangling if the state is not listed at any position, before or after. The
errors reported are these, each as often as it occurs and in the order of the record.
-/

namespace EpsilonAutomata

namespace Record

/-- The states that were listed before, once for each position where they are listed again. -/
def relisted (states : List StateId) : List StateId :=
  states.zipIdx.filterMap fun (state, position) =>
    if state ∈ states.take position then some state else none

/-- Those of some references whose states are not listed. -/
def dangling (record : Record) (references : List StateId) : List ConstructionError :=
  (references.filter (· ∉ record.states)).map .unknownState

def faults (record : Record) : List ConstructionError :=
  (relisted record.states).map .duplicateState ++
    record.dangling [record.initial] ++
    record.dangling record.accepting ++
    record.transitions.flatMap fun row =>
      record.dangling [row.source] ++ record.dangling row.targets

variable {record : Record}

/-! ## States listed again -/

/-- The set seen so far stands for the part of the list in front of the position. -/
theorem repeats_eq {front back : List StateId} {seen : StateSet}
    (seen_iff : ∀ state, state ∈ seen ↔ state ∈ front) :
    repeats seen back =
      (back.zipIdx front.length).filterMap fun (state, position) =>
        if state ∈ (front ++ back).take position then some state else none := by
  induction back generalizing front seen with
  | nil => rfl
  | cons state rest induction =>
      have here : (front ++ state :: rest).take front.length = front := List.take_left
      have further := @induction (front ++ [state])
      rw [List.append_assoc, List.singleton_append, List.length_append, List.length_singleton]
        at further
      rw [repeats, List.zipIdx_cons, List.filterMap_cons]
      simp only [here, Std.ExtTreeSet.contains_iff_mem, seen_iff]
      by_cases known : state ∈ front
      · have sameMembers : ∀ other, other ∈ seen ↔ other ∈ front ++ [state] := by
          intro other
          rw [seen_iff, List.mem_append, List.mem_singleton, or_iff_left_of_imp]
          exact fun equal => equal ▸ known
        simp only [known, if_true, further sameMembers]
      · have oneMore : ∀ other, other ∈ seen.insert state ↔ other ∈ front ++ [state] := by
          intro other
          rw [StateSet.mem_insert, seen_iff, List.mem_append, List.mem_singleton, or_comm, eq_comm]
        simp only [known, if_false, further oneMore]

theorem repeats_empty (states : List StateId) : repeats ∅ states = relisted states :=
  @repeats_eq [] states ∅ fun state => by simp

/-! ## Dangling references -/

theorem dangling_append (front back : List StateId) :
    record.dangling (front ++ back) = record.dangling front ++ record.dangling back := by
  simp [dangling]

theorem dangling_flatMap (rows : List RecordRow) (references : RecordRow → List StateId) :
    record.dangling (rows.flatMap references) =
      rows.flatMap fun row => record.dangling (references row) := by
  simp [dangling, List.filter_flatMap, List.map_flatMap]

theorem dangling_mentions :
    record.dangling record.mentions =
      record.dangling [record.initial] ++ record.dangling record.accepting ++
        record.transitions.flatMap fun row =>
          record.dangling [row.source] ++ record.dangling row.targets := by
  change record.dangling
    ([record.initial] ++ record.accepting ++
      record.transitions.flatMap fun row => [row.source] ++ row.targets) = _
  simp only [dangling_append, dangling_flatMap]

theorem violations_eq_faults (record : Record) : record.violations = record.faults := by
  have unlisted : (fun state => !(StateSet.ofList record.states).contains state) =
      fun state => decide (state ∉ record.states) := by
    funext state
    rw [decide_not, Bool.not_inj_iff, Bool.eq_iff_iff, decide_eq_true_eq,
      Std.ExtTreeSet.contains_iff_mem, StateSet.mem_ofList]
  rw [violations, repeats_empty, unlisted]
  change _ ++ record.dangling record.mentions = _
  rw [dangling_mentions, faults, List.append_assoc, List.append_assoc, List.append_assoc]

example : faults ⟨[.last, .first, .last, .last], [], .next .first, [.first],
      [⟨.last, .epsilon, []⟩, ⟨.next .first, .epsilon, [.first, .next .first]⟩]⟩ =
    [.duplicateState .last, .duplicateState .last, .unknownState (.next .first),
      .unknownState (.next .first), .unknownState (.next .first)] := by decide +kernel

/-! ## Loading -/

theorem toAutomaton_eq (record : Record) :
    record.toAutomaton =
      if record.faults = [] then .ok record.assemble else .error (.invalid record.faults) := by
  rw [toAutomaton, violations_eq_faults]
  cases record.faults with
  | nil => rfl
  | cons fault rest => rfl

end Record

namespace Automaton

theorem readJson_of_described {input rest : List Char} {value : Json} {record : Record}
    (parsed : Json.read? input = some (value, rest))
    (described : Record.ofJson? value = some record) :
    readJson input =
      if record.faults = [] then
        if (Json.skipBlanks rest).isEmpty then .ok record.assemble else .error .malformed
      else .error (.rejected (.invalid record.faults)) := by
  simp only [readJson, parsed, described, Record.toAutomaton_eq]
  cases record.faults with
  | nil => rfl
  | cons fault further => rfl

/-- What follows a record with faults is not looked at. -/
theorem readJson_eq_rejected_iff {input : List Char} {error : ConstructionError} :
    readJson input = .error (.rejected error) ↔
      ∃ value rest record, Json.read? input = some (value, rest) ∧
        Record.ofJson? value = some record ∧ record.faults ≠ [] ∧
        error = .invalid record.faults := by
  constructor
  · intro rejected
    cases parsed : Json.read? input with
    | none => simp [readJson, parsed] at rejected
    | some result =>
        cases described : Record.ofJson? result.1 with
        | none => simp [readJson, parsed, described] at rejected
        | some record =>
            rw [readJson_of_described parsed described] at rejected
            split at rejected
            · split at rejected
              · cases rejected
              · cases rejected
            · next faulty =>
                cases rejected
                exact ⟨result.1, result.2, record, rfl, described, faulty, rfl⟩
  · intro found
    rcases found with ⟨value, rest, record, parsed, described, faulty, rfl⟩
    rw [readJson_of_described parsed described, if_neg faulty]

theorem readJson_write (record : Record) :
    readJson record.toJson.write =
      if record.faults = [] then .ok record.assemble
      else .error (.rejected (.invalid record.faults)) := by
  have nothingFollows : Json.EndsNumber [] := nofun
  have read : Json.read? record.toJson.write = some (record.toJson, []) := by
    rw [← List.append_nil record.toJson.write]
    exact Json.read?_write record.natural_toJson nothingFollows
  exact readJson_of_described read record.ofJson?_toJson

/-- Validation reports every fault of a record, as often as it occurs and in the order of the
record, and it accepts a record without faults. The same goes for records that are read from a text,
the one in which a record is written as well as any other. -/
theorem validation_exact :
    (∀ record : Record, record.toAutomaton =
      if record.faults = [] then .ok record.assemble else .error (.invalid record.faults)) ∧
    (∀ record : Record, readJson record.toJson.write =
      if record.faults = [] then .ok record.assemble
      else .error (.rejected (.invalid record.faults))) ∧
    (∀ input error, readJson input = .error (.rejected error) ↔
      ∃ value rest record, Json.read? input = some (value, rest) ∧
        Record.ofJson? value = some record ∧ record.faults ≠ [] ∧
        error = .invalid record.faults) := by
  refine ⟨?_, ?_, ?_⟩
  · exact Record.toAutomaton_eq
  · exact readJson_write
  · exact fun input error => readJson_eq_rejected_iff

end Automaton

end EpsilonAutomata
