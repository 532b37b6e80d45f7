import EpsilonAutomata.Json.RoundTrip
import EpsilonAutomata.JsonForm
import EpsilonAutomata.Proofs.Invariant.Draft

/-!
An automaton survives being written and read.

An automaton is written as its record, and the record in some format. Each of the two steps can be
undone. Nothing is wrong with the record of a well-formed automaton, and assembling it gives the
automaton back (`Record.toAutomaton_ofAutomaton`): its lists are the members of the sets, so no
state is repeated, and a character on an edge is in the alphabet whether or not it is listed there.
Of a format no more is needed than that a record is read back (`RecordFormat.roundTrip`). JSON is
such a format (`RecordFormat.json`): the JSON form of a record holds no numbers but indices, so that
its text is read back (`Json.read?_write`).
-/

namespace EpsilonAutomata

/-! ## Records -/

namespace Record

variable {automaton : Automaton}

theorem violations_ofAutomaton (wellFormed : automaton.WellFormed) :
    (ofAutomaton automaton).violations = [] := by
  have listed : StateSet.ofList (ofAutomaton automaton).states = automaton.states :=
    StateSet.ofList_toList automaton.states
  rw [violations_eq_nil_iff, listed]
  refine ⟨?_, wellFormed.initial_mem, ?_, ?_⟩
  · exact repeats_eq_nil_iff.mpr
      ⟨StateSet.nodup_toList automaton.states, fun _ _ => Std.ExtTreeSet.not_mem_empty⟩
  · intro state member
    exact wellFormed.accepting_subset state (Std.ExtTreeSet.mem_toList.mp member)
  · intro row rowMember
    rcases List.mem_map.mp rowMember with ⟨⟨move, targets⟩, entry, rfl⟩
    have edges : ∀ target ∈ targets, (⟨move.source, move.symbol, target⟩ : Edge) ∈
        automaton.transitions := fun _ member => StateRelation.mem_targets_of_entry entry member
    -- A row is not empty, so it has an edge, and that edge starts in the source of the row.
    have nonempty : targets ≠ ∅ := (StateRelation.mem_entries_iff.mp entry).1
    rcases StateSet.exists_mem_of_ne_empty nonempty with ⟨first, firstMember⟩
    refine ⟨wellFormed.source_mem _ (edges first firstMember), ?_⟩
    intro target member
    exact wellFormed.target_mem _ (edges target (Std.ExtTreeSet.mem_toList.mp member))

theorem fullAlphabet_ofAutomaton (wellFormed : automaton.WellFormed) :
    (ofAutomaton automaton).fullAlphabet = automaton.alphabet := by
  apply Alphabet.ext
  intro character
  rw [mem_fullAlphabet]
  constructor
  · intro known
    rcases known with declared | ⟨row, rowMember, nonempty, literal⟩
    · exact Std.ExtTreeSet.mem_toList.mp declared
    · rcases List.mem_map.mp rowMember with ⟨⟨move, targets⟩, entry, rfl⟩
      rcases List.exists_mem_of_ne_nil _ nonempty with ⟨target, member⟩
      have edge := StateRelation.mem_targets_of_entry entry (Std.ExtTreeSet.mem_toList.mp member)
      exact wellFormed.literal_mem ⟨move.source, move.symbol, target⟩ edge character literal
  · exact fun member => .inl (Std.ExtTreeSet.mem_toList.mpr member)

theorem assemble_ofAutomaton (wellFormed : automaton.WellFormed) :
    (ofAutomaton automaton).assemble = automaton := by
  have states : StateSet.ofList (ofAutomaton automaton).states = automaton.states :=
    StateSet.ofList_toList automaton.states
  have accepting : StateSet.ofList (ofAutomaton automaton).accepting = automaton.accepting :=
    StateSet.ofList_toList automaton.accepting
  have rows : ((ofAutomaton automaton).transitions.map fun row =>
      ((⟨row.source, row.symbol⟩ : Move), StateSet.ofList row.targets)) =
        automaton.transitions.entries := by
    simp [ofAutomaton, Function.comp_def, StateSet.ofList_toList]
  have transitions : (ofAutomaton automaton).transitions.foldl addRow ∅ =
      automaton.transitions := by
    rw [foldl_addRow_eq_insertMany, rows]
    exact StateRelation.ofRows_entries automaton.transitions
  rw [assemble, states, accepting, transitions, fullAlphabet_ofAutomaton wellFormed]
  rfl

theorem toAutomaton_ofAutomaton (wellFormed : automaton.WellFormed) :
    (ofAutomaton automaton).toAutomaton = .ok automaton :=
  toAutomaton_eq_ok_iff.mpr
    ⟨violations_ofAutomaton wellFormed, (assemble_ofAutomaton wellFormed).symm⟩

end Record

/-! ## Any format -/

/-- A way to write records and to read them, where what is written is read back. -/
structure RecordFormat (Text : Type) where
  write : Record → Text
  read? : Text → Option Record
  read_write : ∀ record, read? (write record) = some record

namespace RecordFormat

variable {Text : Type} (format : RecordFormat Text) {automaton left right : Automaton} {text : Text}

def save (automaton : Automaton) : Text :=
  format.write (.ofAutomaton automaton)

/-- The automaton that a text describes, if it is the text of a record with nothing wrong. -/
def load? (text : Text) : Option Automaton :=
  (format.read? text).bind (·.toAutomaton.toOption)

theorem load?_eq_some_iff :
    format.load? text = some automaton ↔
      ∃ record, format.read? text = some record ∧ record.toAutomaton = .ok automaton := by
  rw [load?, Option.bind_eq_some_iff]
  exact exists_congr fun record => and_congr_right' Draft.toOption_eq_some_iff

theorem wellFormed_of_load? (loads : format.load? text = some automaton) :
    automaton.WellFormed := by
  rcases format.load?_eq_some_iff.mp loads with ⟨_, _, described⟩
  exact Automaton.wellFormed_of_toAutomaton described

theorem load?_save (wellFormed : automaton.WellFormed) :
    format.load? (format.save automaton) = some automaton :=
  format.load?_eq_some_iff.mpr
    ⟨.ofAutomaton automaton, format.read_write _, Record.toAutomaton_ofAutomaton wellFormed⟩

theorem save_eq_save_iff (leftWellFormed : left.WellFormed) (rightWellFormed : right.WellFormed) :
    format.save left = format.save right ↔ left = right := by
  constructor
  · intro sameText
    have leftLoads := format.load?_save leftWellFormed
    rw [sameText, format.load?_save rightWellFormed, Option.some.injEq] at leftLoads
    exact leftLoads.symm
  · exact congrArg format.save

/-- In any format an automaton is loaded from its own text, so that different automata have
different texts; and so is whatever is loaded from another text. -/
theorem roundTrip :
    (∀ automaton : Automaton, automaton.WellFormed →
      format.load? (format.save automaton) = some automaton) ∧
    (∀ left right : Automaton, left.WellFormed → right.WellFormed →
      (format.save left = format.save right ↔ left = right)) ∧
    ∀ (text : Text) (automaton : Automaton), format.load? text = some automaton →
      format.load? (format.save automaton) = some automaton := by
  refine ⟨?_, ?_, ?_⟩
  · exact fun _ wellFormed => format.load?_save wellFormed
  · exact fun _ _ leftWellFormed rightWellFormed =>
      format.save_eq_save_iff leftWellFormed rightWellFormed
  · exact fun _ _ loads => format.load?_save (format.wellFormed_of_load? loads)

end RecordFormat

/-! ## The numbers in the JSON form -/

namespace Json

theorem natural_array {α : Type} {writeItem : α → Json}
    (natural : ∀ item, Natural (writeItem item)) (list : List α) :
    Natural (array (list.map writeItem)) := by
  apply Natural.array
  intro value member
  rcases List.mem_map.mp member with ⟨item, _, rfl⟩
  exact natural item

theorem natural_object {names : List (Option Word)} {values : List Json}
    (natural : ∀ value ∈ values, Natural value) : Natural (object (names.zip values)) := by
  apply Natural.object
  intro field member
  exact natural field.2 (List.of_mem_zip member).2

end Json

theorem StateId.natural_toJson (state : StateId) : state.toJson.Natural :=
  .number state.index

theorem Symbol.natural_toJson (symbol : Symbol) : symbol.toJson.Natural := by
  cases symbol with
  | epsilon => exact .text _
  | literal character =>
      apply Json.Natural.object
      intro field member
      cases List.mem_singleton.mp member
      exact .text _

theorem RecordRow.natural_toJson (row : RecordRow) : row.toJson.Natural := by
  apply Json.natural_object
  simp only [List.forall_mem_cons]
  exact ⟨row.source.natural_toJson, row.symbol.natural_toJson,
    Json.natural_array StateId.natural_toJson row.targets, nofun⟩

theorem Record.natural_toJson (record : Record) : record.toJson.Natural := by
  have states (list : List StateId) : Json.Natural (.array (list.map StateId.toJson)) :=
    Json.natural_array StateId.natural_toJson list
  apply Json.natural_object
  simp only [List.forall_mem_cons]
  exact ⟨states record.states, Json.natural_array (fun _ => .text _) record.alphabet,
    record.initial.natural_toJson, states record.accepting,
    Json.natural_array RecordRow.natural_toJson record.transitions, nofun⟩

/-! ## JSON -/

/-- Reads a record that nothing but blanks follows. -/
def Record.readJson? (input : List Char) : Option Record :=
  match Json.read? input with
  | none => none
  | some (value, rest) => if (Json.skipBlanks rest).isEmpty then ofJson? value else none

theorem Record.readJson?_write (record : Record) :
    readJson? record.toJson.write = some record := by
  have nothingFollows : Json.EndsNumber [] := nofun
  have read : Json.read? record.toJson.write = some (record.toJson, []) := by
    rw [← List.append_nil record.toJson.write]
    exact Json.read?_write record.natural_toJson nothingFollows
  rw [readJson?, read]
  exact Record.ofJson?_toJson record

def RecordFormat.json : RecordFormat (List Char) where
  write record := record.toJson.write
  read? := Record.readJson?
  read_write := Record.readJson?_write

namespace Automaton

variable {automaton : Automaton}

/-- To read in three steps is to load, apart from what is reported of a text that is refused. -/
theorem readJson_eq_ok_iff {input : List Char} :
    readJson input = .ok automaton ↔ RecordFormat.json.load? input = some automaton := by
  rw [RecordFormat.load?_eq_some_iff]
  change _ ↔ ∃ record, Record.readJson? input = some record ∧ record.toAutomaton = .ok automaton
  rw [readJson, Record.readJson?]
  cases Json.read? input with
  | none => simp
  | some parsed =>
      rcases parsed with ⟨value, rest⟩
      cases described : Record.ofJson? value with
      | none => simp [described]
      | some record =>
          cases loaded : record.toAutomaton with
          | error failure => simp [described, loaded]
          | ok result =>
              by_cases ended : Json.skipBlanks rest = []
              · simp [described, loaded, ended]
              · simp [described, loaded, ended]

theorem wellFormed_of_readJson {input : List Char} (succeeds : readJson input = .ok automaton) :
    automaton.WellFormed :=
  RecordFormat.json.wellFormed_of_load? (readJson_eq_ok_iff.mp succeeds)

/-- The text of an automaton is read back as that automaton, so that different automata have
different texts; and whatever is read from a text, in whichever of the many ways to write it, is
read back from its own text. -/
theorem json_roundTrip :
    (∀ automaton : Automaton, automaton.WellFormed →
      readJson automaton.writeJson = .ok automaton) ∧
    (∀ left right : Automaton, left.WellFormed → right.WellFormed →
      (left.writeJson = right.writeJson ↔ left = right)) ∧
    ∀ (input : List Char) (automaton : Automaton), readJson input = .ok automaton →
      readJson automaton.writeJson = .ok automaton := by
  simp only [readJson_eq_ok_iff]
  exact RecordFormat.json.roundTrip

/-- Labels that are escaped in a text, an epsilon edge beside an edge that reads `ε`, the last state,
and a state and a character that no edge mentions. -/
def escapes : Automaton where
  states := .ofList [.first, .next .first, .last]
  alphabet := .ofList ['\x01', '"', '\\', 'z', 'ε']
  initial := .last
  accepting := {.first}
  transitions := .ofRows
    [(⟨.first, .literal '\x01'⟩, {.last}), (⟨.first, .literal '"'⟩, {.last}),
      (⟨.first, .literal '\\'⟩, {.last}), (⟨.last, .epsilon⟩, .ofList [.first, .last]),
      (⟨.last, .literal 'ε'⟩, {.first})]

/-- One state with an edge to itself that reads nothing. -/
def loop : Automaton where
  states := {.first}
  alphabet := ∅
  initial := .first
  accepting := ∅
  transitions := .ofRows [(⟨.first, .epsilon⟩, {.first})]

/-- The loop in an unusual spelling: rows as arrays, a repeated row, a row without targets, two
fields left out and the others out of order. -/
def loopText : List Char :=
  ("\x7b \"transitions\": [[0, \x7b\"Epsilon\": null\x7d, [0]], [0, \"Epsilon\", [0, 0]]," ++
    " [0, \x7b\"Literal\": \"\\u03b5\"\x7d, []]], \"initial\": 0, \"states\": [0] \x7d ").toList

theorem json_roundTrip_escapes :
    escapes.WellFormed ∧ loop.WellFormed ∧ readJson loopText = .ok loop ∧
      readJson escapes.writeJson = .ok escapes ∧
      (escapes.writeJson = loop.writeJson ↔ escapes = loop) ∧
      readJson loop.writeJson = .ok loop := by
  have escapesWellFormed : escapes.WellFormed := by decide +kernel
  have loopWellFormed : loop.WellFormed := by decide +kernel
  have read : readJson loopText = .ok loop := Draft.toOption_eq_some_iff.mp (by decide +kernel)
  exact ⟨escapesWellFormed, loopWellFormed, read, json_roundTrip.1 escapes escapesWellFormed,
    json_roundTrip.2.1 escapes loop escapesWellFormed loopWellFormed,
    json_roundTrip.2.2 loopText loop read⟩

end Automaton

end EpsilonAutomata
