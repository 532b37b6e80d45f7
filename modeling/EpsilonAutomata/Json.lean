import EpsilonAutomata.Symbol

/-!
JSON values as they are written.

A number keeps its spelling, so `1`, `1.0` and `1e0` are different values, and an object keeps its
members in order and with repeats. A text has no content if it names half of a surrogate pair: it
then has the form of a text but names no sequence of characters.
-/

namespace EpsilonAutomata

inductive Json where
  | null
  | boolean (value : Bool)
  | number (spelling : List Char)
  | text (content : Option Word)
  | array (items : List Json)
  | object (members : List (Option Word × Json))

namespace Json

def ofNat (value : Nat) : Json :=
  number (Nat.toDigits 10 value)

/-- The value of a number that is spelled by digits alone. -/
def nat? : Json → Option Nat
  | number spelling =>
      if spelling.all Char.isDigit then some (Nat.ofDigitChars 10 spelling 0) else none
  | _ => none

@[simp] theorem nat?_ofNat (value : Nat) : (ofNat value).nat? = some value := by
  have digits : (Nat.toDigits 10 value).all Char.isDigit = true :=
    List.all_eq_true.mpr fun _ member =>
      Nat.isDigit_of_mem_toDigits (by decide) (by decide) member
  simp [ofNat, nat?, digits, Nat.ofDigitChars_ten_toDigits]

def ofWord (word : Word) : Json :=
  text (some word)

def ofString (string : String) : Json :=
  ofWord string.toList

def ofCharacter (character : Char) : Json :=
  ofWord [character]

/-- The only character of a text. -/
def character? : Json → Option Char
  | text (some [character]) => some character
  | _ => none

def items? : Json → Option (List Json)
  | array items => some items
  | _ => none

/-- A list whose items can all be read. -/
def listOf? {α : Type} (readItem : Json → Option α) (value : Json) : Option (List α) :=
  value.items?.bind fun items => items.mapM readItem

theorem listOf?_map {α : Type} {readItem : Json → Option α} {writeItem : α → Json}
    (inverse : ∀ item, readItem (writeItem item) = some item) (list : List α) :
    listOf? readItem (array (list.map writeItem)) = some list := by
  change (list.map writeItem).mapM readItem = some list
  induction list with
  | nil => rfl
  | cons head tail induction => simp [List.mapM_cons, inverse, induction]

def ofMembers (members : List (String × Json)) : Json :=
  object (members.map fun (name, value) => (some name.toList, value))

/-! ## Structures

A structure with named fields is an object or an array. In an object, members with other names are
ignored, but no field may be given twice. An array gives the fields in their order, and may end
early. -/

def fields? (names : List Word) : Json → Option (List (Option Json))
  | object members =>
      if members.all fun (name, _) => name.isSome then
        names.mapM fun name =>
          match members.filter fun (given, _) => given = some name with
          | [] => some none
          | [(_, value)] => some (some value)
          | _ => none
      else none
  | array items =>
      if items.length ≤ names.length then
        some (items.map some ++ List.replicate (names.length - items.length) none)
      else none
  | _ => none

end Json

end EpsilonAutomata
