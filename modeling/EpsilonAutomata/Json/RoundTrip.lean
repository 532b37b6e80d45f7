import EpsilonAutomata.Json.Reader
import EpsilonAutomata.Json.Writer

/-!
Reading what was written.

A value whose numbers are natural is read back from its written form, whatever follows it, unless
what follows could be taken for the rest of a number (`Json.read?_write`).
-/

namespace EpsilonAutomata

namespace Json

/-! ## Characters and texts -/

theorem hexDigit?_digitChar : ∀ digit < 16, hexDigit? (Nat.digitChar digit) = some digit := by
  decide

/-- Codes that are characters are never joined to the code before them. -/
theorem pushCode_character (character : Char) (codes : List Nat) :
    pushCode character.toNat codes = character.toNat :: codes := by
  cases codes with
  | nil => rfl
  | cons previous earlier =>
      have valid : character.toNat < 0xd800 ∨
          0xdfff < character.toNat ∧ character.toNat < 0x110000 := character.valid
      have notLow : isLowSurrogate character.toNat = false := by
        simp only [isLowSurrogate, Bool.and_eq_false_iff, decide_eq_false_iff_not]
        omega
      simp [pushCode, notLow]

theorem readCodes_writeCharacter (character : Char) (codes : List Nat) (rest : List Char) :
    readCodes .plain codes (writeCharacter character ++ rest) =
      readCodes .plain (character.toNat :: codes) rest := by
  rw [← pushCode_character]
  unfold writeCharacter
  repeat' split
  · next equal => cases equal; rfl
  · next equal => cases equal; rfl
  · next equal => cases equal; rfl
  · next equal => cases equal; rfl
  · next equal => cases equal; rfl
  · next equal => cases equal; rfl
  · next equal => cases equal; rfl
  · next small =>
      have high := hexDigit?_digitChar (character.toNat / 16) (by omega)
      have low := hexDigit?_digitChar (character.toNat % 16) (by omega)
      have zero : hexDigit? '0' = some 0 := rfl
      have value : ((0 * 16 + 0) * 16 + 0) * 16 + character.toNat / 16 = character.toNat / 16 := by
        omega
      simp [readCodes, high, low, zero]
      congr 2
      omega
  · next notQuote notBackslash _ _ _ _ _ notSmall =>
      simp [readCodes, notQuote, notBackslash, notSmall]

theorem readCodes_write (content : Word) (codes : List Nat) (rest : List Char) :
    readCodes .plain codes (content.flatMap writeCharacter ++ '"' :: rest) =
      some ((content.map Char.toNat).reverse ++ codes, rest) := by
  induction content generalizing codes with
  | nil => rfl
  | cons character content induction =>
      rw [List.flatMap_cons, List.append_assoc, readCodes_writeCharacter, induction]
      simp

theorem characterOfCode?_toNat (character : Char) :
    characterOfCode? character.toNat = some character := by
  have valid : character.toNat.isValidChar := character.valid
  rw [characterOfCode?, dif_pos valid]
  exact congrArg some (Char.toNat_inj.mp rfl)

theorem readText_write (content : Option Word) (rest : List Char) :
    ∃ body, writeText content = '"' :: body ∧ readText (body ++ rest) = some (content, rest) := by
  cases content with
  | none => exact ⟨_, rfl, rfl⟩
  | some content =>
      refine ⟨content.flatMap writeCharacter ++ ['"'], rfl, ?_⟩
      have characters : (content.map Char.toNat).mapM characterOfCode? = some content := by
        induction content with
        | nil => rfl
        | cons character content induction =>
            simp [List.mapM_cons, characterOfCode?_toNat, induction]
      rw [List.append_assoc, readText]
      change ((readCodes .plain [] (content.flatMap writeCharacter ++ '"' :: rest)).map _) = _
      rw [readCodes_write]
      simp [characters]

/-! ## Numbers -/

/-- What may follow a number without being taken for a part of it. -/
def EndsNumber (rest : List Char) : Prop :=
  ∀ character ∈ rest.head?, character.isDigit = false ∧ character ≠ '.' ∧
    character ≠ 'e' ∧ character ≠ 'E'

theorem isDigit_of_mem_toDigits {value : Nat} {character : Char}
    (member : character ∈ Nat.toDigits 10 value) : character.isDigit = true :=
  Nat.isDigit_of_mem_toDigits (by decide) (by decide) member

theorem head?_toDigits_ne_zero (value : Nat) (positive : 0 < value) :
    (Nat.toDigits 10 value).head? ≠ some '0' := by
  induction value using Nat.strongRecOn with
  | ind value induction =>
      by_cases small : value < 10
      · have cases : ∀ value < 10, 0 < value → (Nat.toDigits 10 value).head? ≠ some '0' := by
          decide
        exact cases value small positive
      · have tens := induction (value / 10) (by omega) (by omega)
        rw [Nat.toDigits_of_base_le (by decide) (by omega)]
        cases spelled : Nat.toDigits 10 (value / 10) with
        | nil => exact absurd spelled Nat.toDigits_ne_nil
        | cons first rest =>
            rw [spelled] at tens
            exact tens

theorem readDigits_append {digits rest : List Char} (nonempty : digits ≠ [])
    (all : ∀ digit ∈ digits, digit.isDigit = true) (ends : EndsNumber rest) :
    readDigits (digits ++ rest) = some (digits, rest) := by
  have stop : rest.takeWhile Char.isDigit = [] ∧ rest.dropWhile Char.isDigit = rest := by
    cases rest with
    | nil => exact ⟨rfl, rfl⟩
    | cons character rest => simp [(ends character rfl).1]
  simp [readDigits, List.takeWhile_append_of_pos all, List.dropWhile_append_of_pos all, stop,
    nonempty]

theorem readNumber_toDigits (value : Nat) {rest : List Char} (ends : EndsNumber rest) :
    readNumber (Nat.toDigits 10 value ++ rest) = some (Nat.toDigits 10 value, rest) := by
  have all : ∀ digit ∈ Nat.toDigits 10 value, digit.isDigit = true :=
    fun _ member => isDigit_of_mem_toDigits member
  have digits : readDigits (Nat.toDigits 10 value ++ rest) =
      some (Nat.toDigits 10 value, rest) :=
    readDigits_append Nat.toDigits_ne_nil all ends
  have whole : readWhole (Nat.toDigits 10 value ++ rest) = some (Nat.toDigits 10 value, rest) := by
    rw [readWhole, digits]
    cases spelled : Nat.toDigits 10 value with
    | nil => exact absurd spelled Nat.toDigits_ne_nil
    | cons first others =>
        cases others with
        | nil => simp
        | cons second others =>
            have firstNotZero : first ≠ '0' := by
              intro isZero
              cases isZero
              rcases Nat.eq_zero_or_pos value with rfl | positive
              · simp [Nat.toDigits_zero] at spelled
              · exact head?_toDigits_ne_zero value positive (by rw [spelled]; rfl)
            simp [firstNotZero]
  have fraction : readFraction rest = some ([], rest) := by
    unfold readFraction
    split
    · next rest => exact absurd rfl (ends '.' rfl).2.1
    · rfl
  have exponent : readExponent rest = some ([], rest) := by
    cases rest with
    | nil => rfl
    | cons mark rest =>
        have marks := (ends mark rfl).2.2
        simp [readExponent, marks]
  have unsigned : readUnsigned (Nat.toDigits 10 value ++ rest) =
      some (Nat.toDigits 10 value, rest) := by
    simp [readUnsigned, whole, fraction, exponent]
  cases spelled : Nat.toDigits 10 value with
  | nil => exact absurd spelled Nat.toDigits_ne_nil
  | cons first digits =>
      rw [spelled] at unsigned
      have firstDigit := all first (by rw [spelled]; exact List.mem_cons_self)
      rw [List.cons_append] at unsigned ⊢
      unfold readNumber
      split
      · next equal =>
          cases equal
          cases firstDigit
      · exact unsigned

/-! ## Values -/

/-- Every number in the value is spelled by the digits of a natural number. -/
inductive Natural : Json → Prop
  | null : Natural null
  | boolean (value : Bool) : Natural (boolean value)
  | number (value : Nat) : Natural (ofNat value)
  | text (content : Option Word) : Natural (text content)
  | array {items : List Json} (all : ∀ item ∈ items, Natural item) : Natural (array items)
  | object {members : List (Option Word × Json)} (all : ∀ member ∈ members, Natural member.2) :
      Natural (object members)

theorem endsNumber_cons {character : Char}
    (ends : character.isDigit = false ∧ character ≠ '.' ∧ character ≠ 'e' ∧ character ≠ 'E')
    (rest : List Char) : EndsNumber (character :: rest) := by
  intro first member
  cases member
  exact ends

theorem endsNumber_writeItems (items : List Json) (rest : List Char) :
    EndsNumber (writeItems items ++ rest) := by
  cases items with
  | nil => exact endsNumber_cons (by decide) _
  | cons item items => exact endsNumber_cons (by decide) _

theorem endsNumber_writeMembers (members : List (Option Word × Json)) (rest : List Char) :
    EndsNumber (writeMembers members ++ rest) := by
  cases members with
  | nil => exact endsNumber_cons (by decide) _
  | cons member members => exact endsNumber_cons (by decide) _

theorem readName_write (name : Option Word) (rest : List Char) :
    readName (writeText name ++ ':' :: rest) = some (name, rest) := by
  rcases readText_write name (':' :: rest) with ⟨body, written, read⟩
  rw [written]
  have skip : skipBlanks ('"' :: (body ++ ':' :: rest)) = '"' :: (body ++ ':' :: rest) := rfl
  simp only [List.cons_append, readName, skip, read, Option.bind_some]
  rfl

theorem skipBlanks_cons {character : Char} (notBlank : isBlank character = false)
    (rest : List Char) : skipBlanks (character :: rest) = character :: rest := by
  simp [skipBlanks, notBlank]

theorem head_digit_of_toDigits (value : Nat) :
    ∃ first digits, Nat.toDigits 10 value = first :: digits ∧ first.isDigit = true := by
  cases spelled : Nat.toDigits 10 value with
  | nil => exact absurd spelled Nat.toDigits_ne_nil
  | cons first digits =>
      exact ⟨first, digits, rfl, isDigit_of_mem_toDigits (by rw [spelled]; exact List.mem_cons_self)⟩

theorem isBlank_of_isDigit {character : Char} (digit : character.isDigit = true) :
    isBlank character = false := by
  apply Classical.byContradiction
  intro blank
  simp only [isBlank, Bool.not_eq_false, Bool.or_eq_true, decide_eq_true_eq] at blank
  rcases blank with ((rfl | rfl) | rfl) | rfl <;> cases digit

/-- A written value starts with neither a blank nor the end of an array. -/
theorem head_write {value : Json} (natural : Natural value) :
    ∃ first rest, value.write = first :: rest ∧ isBlank first = false ∧ first ≠ ']' := by
  cases natural with
  | null => exact ⟨_, _, rfl, rfl, by decide⟩
  | boolean value => cases value <;> exact ⟨_, _, rfl, rfl, by decide⟩
  | number value =>
      rcases head_digit_of_toDigits value with ⟨first, digits, spelled, digit⟩
      refine ⟨first, digits, by rw [ofNat, write, spelled], isBlank_of_isDigit digit, ?_⟩
      intro closes
      cases closes
      cases digit
  | text content =>
      rcases readText_write content [] with ⟨body, written, _⟩
      exact ⟨'"', body, by rw [write, written], rfl, by decide⟩
  | @array items _ =>
      cases items <;> exact ⟨'[', _, rfl, rfl, by decide⟩
  | @object members _ =>
      cases members <;> exact ⟨'{', _, rfl, rfl, by decide⟩

mutual

/-- A written value is read back, given fuel for two calls at each of its characters. -/
theorem readValue_write : ∀ (value : Json), Natural value → ∀ (fuel : Nat) (rest : List Char),
    2 * value.write.length ≤ fuel → EndsNumber rest →
    readValue fuel (value.write ++ rest) = some (value, rest)
  | _, _, 0, _, enough, _ => by
      rename_i value natural _ _
      rcases head_write natural with ⟨first, others, written, _⟩
      rw [written] at enough
      simp at enough
  | null, _, fuel + 1, rest, _, _ => rfl
  | boolean true, _, fuel + 1, rest, _, _ => rfl
  | boolean false, _, fuel + 1, rest, _, _ => rfl
  | number spelling, natural, fuel + 1, rest, enough, ends => by
      rcases natural with _ | _ | value
      have read := readNumber_toDigits value ends
      rcases head_digit_of_toDigits value with ⟨first, digits, spelled, digit⟩
      rw [write, spelled, List.cons_append]
      rw [spelled, List.cons_append] at read
      rw [readValue, skipBlanks_cons (isBlank_of_isDigit digit)]
      split
      · next equal =>
          cases equal
          cases digit
      · next equal =>
          cases equal
          cases digit
      · next equal =>
          cases equal
          cases digit
      · next equal =>
          cases equal
          cases digit
      · next equal =>
          cases equal
          cases digit
      · next equal =>
          cases equal
          cases digit
      · rw [read]
        rfl
  | text content, _, fuel + 1, rest, _, _ => by
      rcases readText_write content rest with ⟨body, written, read⟩
      rw [write, written, List.cons_append, readValue, skipBlanks_cons rfl]
      simp [read]
  | array [], _, fuel + 1, rest, _, _ => rfl
  | array (first :: items), natural, fuel + 1, rest, enough, _ => by
      rcases natural with _ | _ | _ | _ | all
      have firstNatural := all first List.mem_cons_self
      have read := readItems_write first items firstNatural
        (fun item member => all item (List.mem_cons_of_mem _ member)) fuel [] rest
        (by simp [write] at enough; omega)
      rcases head_write firstNatural with ⟨character, others, written, notBlank, notEnd⟩
      rw [written, List.cons_append] at read
      rw [write, written, List.cons_append, readValue, skipBlanks_cons rfl]
      simp only [List.cons_append, List.append_assoc, skipBlanks_cons notBlank]
      split
      · next equal =>
          cases equal
          exact absurd rfl notEnd
      · exact read
  | object [], _, fuel + 1, rest, _, _ => rfl
  | object ((name, value) :: members), natural, fuel + 1, rest, enough, _ => by
      rcases natural with _ | _ | _ | _ | _ | all
      have read := readMembers_write name value members (all (name, value) List.mem_cons_self)
        (fun member present => all member (List.mem_cons_of_mem _ present)) fuel [] rest
        (by simp [write] at enough; omega)
      rcases readText_write name [] with ⟨body, written, _⟩
      rw [written, List.cons_append] at read
      rw [write, written, List.cons_append, readValue, skipBlanks_cons rfl]
      simp only [List.cons_append, List.append_assoc, skipBlanks_cons (rfl : isBlank '"' = false)]
      exact read

theorem readItems_write : ∀ (item : Json) (items : List Json), Natural item →
    (∀ item ∈ items, Natural item) → ∀ (fuel : Nat) (earlier : List Json) (rest : List Char),
    2 * item.write.length + 2 * (writeItems items).length + 1 ≤ fuel →
    readItems fuel earlier (item.write ++ (writeItems items ++ rest)) =
      some (array (earlier.reverse ++ item :: items), rest)
  | _, _, _, _, 0, _, _, enough => by omega
  | item, items, natural, all, fuel + 1, earlier, rest, enough => by
      have read := readValue_write item natural fuel (writeItems items ++ rest) (by omega)
        (endsNumber_writeItems items rest)
      rw [readItems, read]
      cases items with
      | nil => simp [writeItems, skipBlanks_cons (rfl : isBlank ']' = false)]
      | cons next items =>
          have others := readItems_write next items (all next List.mem_cons_self)
            (fun item member => all item (List.mem_cons_of_mem _ member)) fuel (item :: earlier) rest
            (by simp [writeItems] at enough; omega)
          simp only [writeItems, List.cons_append, skipBlanks_cons (rfl : isBlank ',' = false),
            List.append_assoc]
          rw [others]
          simp

theorem readMembers_write : ∀ (name : Option Word) (value : Json)
    (members : List (Option Word × Json)), Natural value →
    (∀ member ∈ members, Natural member.2) →
    ∀ (fuel : Nat) (earlier : List (Option Word × Json)) (rest : List Char),
    2 * (writeText name).length + 2 * value.write.length + 2 * (writeMembers members).length + 1
      ≤ fuel →
    readMembers fuel earlier
        (writeText name ++ ':' :: (value.write ++ (writeMembers members ++ rest))) =
      some (object (earlier.reverse ++ (name, value) :: members), rest)
  | _, _, _, _, _, 0, _, _, enough => by omega
  | name, value, members, natural, all, fuel + 1, earlier, rest, enough => by
      have read := readValue_write value natural fuel (writeMembers members ++ rest) (by omega)
        (endsNumber_writeMembers members rest)
      rw [readMembers, readName_write]
      simp only [read]
      cases members with
      | nil => simp [writeMembers, skipBlanks_cons (rfl : isBlank '}' = false)]
      | cons next members =>
          rcases next with ⟨nextName, nextValue⟩
          have others := readMembers_write nextName nextValue members
            (all (nextName, nextValue) List.mem_cons_self)
            (fun member present => all member (List.mem_cons_of_mem _ present)) fuel
            ((name, value) :: earlier) rest
            (by simp [writeMembers] at enough; omega)
          simp only [writeMembers, List.cons_append, skipBlanks_cons (rfl : isBlank ',' = false),
            List.append_assoc]
          rw [others]
          simp

end

/-- Reading a written value gives the value and what follows it. -/
theorem read?_write {value : Json} (natural : Natural value) {rest : List Char}
    (ends : EndsNumber rest) : read? (value.write ++ rest) = some (value, rest) :=
  readValue_write value natural _ rest (by simp; omega) ends

end Json

end EpsilonAutomata
