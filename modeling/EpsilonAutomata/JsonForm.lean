import EpsilonAutomata.Json.Reader
import EpsilonAutomata.Json.Writer
import EpsilonAutomata.Record

/-!
The JSON form of states, symbols and automata.

An automaton is written as its record. It is read in three steps: the text has to be JSON of the
right shape, then the record has to describe an automaton, and last nothing may follow the value.
The first step that fails gives the outcome.
-/

namespace EpsilonAutomata

/-! ## States -/

def StateId.toJson (state : StateId) : Json :=
  .ofNat state.index

def StateId.ofJson? (value : Json) : Option StateId :=
  value.nat?.bind StateId.ofIndex?

theorem StateId.ofJson?_toJson (state : StateId) : StateId.ofJson? state.toJson = some state := by
  simp [StateId.ofJson?, StateId.toJson, StateId.ofIndex?_eq_some_iff]

/-! ## Symbols

A literal is an object with one member. Epsilon is a text, or an object whose only member is
null. -/

namespace Symbol

def epsilonName : Word := ['E', 'p', 's', 'i', 'l', 'o', 'n']

def literalName : Word := ['L', 'i', 't', 'e', 'r', 'a', 'l']

def toJson : Symbol → Json
  | epsilon => .ofWord epsilonName
  | literal character => .object [(some literalName, .ofCharacter character)]

def ofJson? : Json → Option Symbol
  | .text (some name) => if name = epsilonName then some epsilon else none
  | .object [(some name, value)] =>
      if name = literalName then value.character?.map literal
      else if name = epsilonName then
        match value with
        | .null => some epsilon
        | _ => none
      else none
  | _ => none

theorem ofJson?_toJson (symbol : Symbol) : ofJson? symbol.toJson = some symbol := by
  cases symbol with
  | epsilon => rfl
  | literal character => rfl

end Symbol

/-! ## Records -/

namespace RecordRow

def fieldNames : List Word :=
  ["from".toList, "symbol".toList, "to".toList]

def toJson (row : RecordRow) : Json :=
  .object <| (fieldNames.map some).zip
    [row.source.toJson, row.symbol.toJson, .array (row.targets.map StateId.toJson)]

def ofJson? (value : Json) : Option RecordRow :=
  match value.fields? fieldNames with
  | some [some source, some symbol, some targets] => do
      return {
        source := ← StateId.ofJson? source
        symbol := ← Symbol.ofJson? symbol
        targets := ← targets.listOf? StateId.ofJson? }
  | _ => none

theorem ofJson?_toJson (row : RecordRow) : ofJson? row.toJson = some row := by
  have fields : row.toJson.fields? fieldNames =
      some [some row.source.toJson, some row.symbol.toJson,
        some (.array (row.targets.map StateId.toJson))] := rfl
  simp only [ofJson?, fields, StateId.ofJson?_toJson, Symbol.ofJson?_toJson,
    Json.listOf?_map StateId.ofJson?_toJson]
  rfl

end RecordRow

namespace Record

def fieldNames : List Word :=
  ["states".toList, "alphabet".toList, "initial".toList, "accepting".toList,
    "transitions".toList]

def toJson (record : Record) : Json :=
  .object <| (fieldNames.map some).zip
    [.array (record.states.map StateId.toJson),
      .array (record.alphabet.map Json.ofCharacter),
      record.initial.toJson,
      .array (record.accepting.map StateId.toJson),
      .array (record.transitions.map RecordRow.toJson)]

/-- Reads a list that may be missing and is empty then. -/
def optionalList? {α : Type} (readItem : Json → Option α) : Option Json → Option (List α)
  | none => some []
  | some value => value.listOf? readItem

def ofJson? (value : Json) : Option Record :=
  match value.fields? fieldNames with
  | some [some states, alphabet, some initial, accepting, transitions] => do
      return {
        states := ← states.listOf? StateId.ofJson?
        alphabet := ← optionalList? Json.character? alphabet
        initial := ← StateId.ofJson? initial
        accepting := ← optionalList? StateId.ofJson? accepting
        transitions := ← optionalList? RecordRow.ofJson? transitions }
  | _ => none

theorem ofJson?_toJson (record : Record) : ofJson? record.toJson = some record := by
  have fields : record.toJson.fields? fieldNames =
      some [some (.array (record.states.map StateId.toJson)),
        some (.array (record.alphabet.map Json.ofCharacter)), some record.initial.toJson,
        some (.array (record.accepting.map StateId.toJson)),
        some (.array (record.transitions.map RecordRow.toJson))] := rfl
  have characters : ∀ character, Json.character? (Json.ofCharacter character) = some character :=
    fun _ => rfl
  simp only [ofJson?, fields, optionalList?, StateId.ofJson?_toJson,
    Json.listOf?_map StateId.ofJson?_toJson, Json.listOf?_map characters,
    Json.listOf?_map RecordRow.ofJson?_toJson]
  rfl

end Record

/-! ## Automata -/

inductive LoadError where
  | malformed
  | rejected (error : ConstructionError)

namespace Automaton

def toJson (automaton : Automaton) : Json :=
  (Record.ofAutomaton automaton).toJson

def writeJson (automaton : Automaton) : List Char :=
  automaton.toJson.write

def readJson (input : List Char) : Except LoadError Automaton :=
  match Json.read? input with
  | none => .error .malformed
  | some (value, rest) =>
      match Record.ofJson? value with
      | none => .error .malformed
      | some record =>
          match record.toAutomaton with
          | .error error => .error (.rejected error)
          | .ok automaton =>
              if (Json.skipBlanks rest).isEmpty then .ok automaton else .error .malformed

end Automaton

end EpsilonAutomata
