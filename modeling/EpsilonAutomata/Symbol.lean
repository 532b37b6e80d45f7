import Std.Data.ExtTreeSet

/-!
Labels of edges, words and alphabets.

An edge is labelled by a character or by epsilon. An epsilon edge reads nothing, so epsilon is in
no word and in no alphabet; the character `ε` is a character like any other.
-/

namespace EpsilonAutomata

inductive Symbol where
  | epsilon
  | literal (character : Char)
deriving DecidableEq

namespace Symbol

/-! Epsilon comes before all characters, which are ordered by code point. -/

def precedence : Symbol → Nat
  | epsilon => 0
  | literal character => character.toNat + 1

theorem precedence_injective {left right : Symbol}
    (equal : left.precedence = right.precedence) : left = right := by
  cases left with
  | epsilon =>
      cases right with
      | epsilon => rfl
      | literal other => simp [precedence] at equal
  | literal character =>
      cases right with
      | epsilon => simp [precedence] at equal
      | literal other =>
          simp only [precedence, Nat.add_right_cancel_iff] at equal
          exact congrArg literal (Char.toNat_inj.mp equal)

instance : Ord Symbol := ⟨compareOn precedence⟩

instance : Std.TransOrd Symbol :=
  inferInstanceAs (Std.TransCmp (compareOn precedence))

instance : Std.LawfulEqOrd Symbol where
  eq_of_compare equal := precedence_injective (Nat.compare_eq_eq.mp equal)

def isEpsilon : Symbol → Bool
  | epsilon => true
  | literal _ => false

/-- The character on the label, if it is not epsilon. -/
def character? : Symbol → Option Char
  | epsilon => none
  | literal character => some character

theorem character?_eq_some_iff {symbol : Symbol} {character : Char} :
    symbol.character? = some character ↔ symbol = .literal character := by
  cases symbol <;> simp [character?]

def display : Symbol → String
  | epsilon => "ε"
  | literal character => character.toString

/-- Symbols in ascending order; repeats are kept. -/
def sort (symbols : List Symbol) : List Symbol :=
  symbols.mergeSort (fun left right => (compare left right).isLE)

end Symbol

abbrev Word := List Char

/-- The characters that are left of a sequence of labels once epsilon is erased. -/
def Word.ofSymbols (symbols : List Symbol) : Word :=
  symbols.filterMap Symbol.character?

namespace Word

@[simp] theorem ofSymbols_nil : ofSymbols [] = [] := rfl

@[simp] theorem ofSymbols_epsilon (symbols : List Symbol) :
    ofSymbols (.epsilon :: symbols) = ofSymbols symbols := rfl

@[simp] theorem ofSymbols_literal (character : Char) (symbols : List Symbol) :
    ofSymbols (.literal character :: symbols) = character :: ofSymbols symbols := rfl

@[simp] theorem ofSymbols_append (front back : List Symbol) :
    ofSymbols (front ++ back) = ofSymbols front ++ ofSymbols back :=
  List.filterMap_append

end Word

abbrev Alphabet := Std.ExtTreeSet Char

namespace Alphabet

theorem ext {left right : Alphabet} (same : ∀ character, character ∈ left ↔ character ∈ right) :
    left = right :=
  Std.ExtTreeSet.ext_mem same

def ofList (characters : List Char) : Alphabet :=
  Std.ExtTreeSet.ofList characters

@[simp] theorem mem_ofList {characters : List Char} {character : Char} :
    character ∈ ofList characters ↔ character ∈ characters := by
  simp [ofList]

theorem empty_union (alphabet : Alphabet) : ∅ ∪ alphabet = alphabet :=
  ext fun character => by simp [Std.ExtTreeSet.mem_union_iff]

/-- The alphabet together with the character on a label, if there is one. -/
def insertSymbol (alphabet : Alphabet) : Symbol → Alphabet
  | .epsilon => alphabet
  | .literal character => alphabet.insert character

@[simp] theorem mem_insertSymbol {alphabet : Alphabet} {symbol : Symbol} {character : Char} :
    character ∈ alphabet.insertSymbol symbol ↔
      symbol = .literal character ∨ character ∈ alphabet := by
  cases symbol <;> simp [insertSymbol]

/-- Characters separated by commas, in ascending order. -/
def display (alphabet : Alphabet) : String :=
  ", ".intercalate (alphabet.toList.map Char.toString)

end Alphabet

end EpsilonAutomata
