import EpsilonAutomata.Json

/-!
Reading JSON.

The grammar is the strict one: no comments, no commas before an end, no leading zeros and no raw
control characters in a text. `Json.read?` reads the first value of an input and returns what is
left, and does not look at what follows the value.
-/

namespace EpsilonAutomata

namespace Json

def isBlank (character : Char) : Bool :=
  character = ' ' || character = '\t' || character = '\n' || character = '\r'

def skipBlanks (input : List Char) : List Char :=
  input.dropWhile isBlank

def readKeyword : (keyword input : List Char) → Option (List Char)
  | [], rest => some rest
  | _ :: _, [] => none
  | expected :: keyword, character :: rest =>
      if expected = character then readKeyword keyword rest else none

/-! ## Numbers -/

def readDigits (input : List Char) : Option (List Char × List Char) :=
  let digits := input.takeWhile Char.isDigit
  if digits.isEmpty then none else some (digits, input.dropWhile Char.isDigit)

/-- The digits before the fraction: a zero is first only if it is alone. -/
def readWhole (input : List Char) : Option (List Char × List Char) :=
  (readDigits input).bind fun (digits, rest) =>
    match digits with
    | '0' :: _ :: _ => none
    | _ => some (digits, rest)

def readFraction : List Char → Option (List Char × List Char)
  | '.' :: rest => (readDigits rest).map fun (digits, rest) => ('.' :: digits, rest)
  | input => some ([], input)

def readExponentSign : List Char → List Char × List Char
  | '+' :: rest => (['+'], rest)
  | '-' :: rest => (['-'], rest)
  | input => ([], input)

def readExponent : List Char → Option (List Char × List Char)
  | [] => some ([], [])
  | mark :: rest =>
      if mark = 'e' || mark = 'E' then
        let (sign, rest) := readExponentSign rest
        (readDigits rest).map fun (digits, rest) => (mark :: sign ++ digits, rest)
      else some ([], mark :: rest)

def readUnsigned (input : List Char) : Option (List Char × List Char) := do
  let (whole, rest) ← readWhole input
  let (fraction, rest) ← readFraction rest
  let (exponent, rest) ← readExponent rest
  return (whole ++ fraction ++ exponent, rest)

def readNumber : List Char → Option (List Char × List Char)
  | '-' :: rest => (readUnsigned rest).map fun (spelling, rest) => ('-' :: spelling, rest)
  | input => readUnsigned input

/-! ## Texts

A text is read as a list of codes, latest first. The codes of a surrogate pair are joined as soon
as the second half is read; a half that stays alone is the code of no character. -/

def hexDigit? (character : Char) : Option Nat :=
  if '0' ≤ character ∧ character ≤ '9' then some (character.toNat - '0'.toNat)
  else if 'a' ≤ character ∧ character ≤ 'f' then some (character.toNat - 'a'.toNat + 10)
  else if 'A' ≤ character ∧ character ≤ 'F' then some (character.toNat - 'A'.toNat + 10)
  else none

/-- The code that a backslash and one letter stand for. -/
def shortEscape? (letter : Char) : Option Nat :=
  if letter = '"' || letter = '\\' || letter = '/' then some letter.toNat
  else if letter = 'b' then some 0x08
  else if letter = 't' then some 0x09
  else if letter = 'n' then some 0x0a
  else if letter = 'f' then some 0x0c
  else if letter = 'r' then some 0x0d
  else none

def isHighSurrogate (code : Nat) : Bool :=
  0xd800 ≤ code && code < 0xdc00

def isLowSurrogate (code : Nat) : Bool :=
  0xdc00 ≤ code && code < 0xe000

def pushCode (code : Nat) : List Nat → List Nat
  | [] => [code]
  | previous :: earlier =>
      if isHighSurrogate previous && isLowSurrogate code then
        (0x10000 + (previous - 0xd800) * 0x400 + (code - 0xdc00)) :: earlier
      else code :: previous :: earlier

def characterOfCode? (code : Nat) : Option Char :=
  if valid : code.isValidChar then some (Char.ofNatAux code valid) else none

inductive TextMode where
  | plain
  | escape
  | code (missing value : Nat)

def readCodes : TextMode → (codes : List Nat) → List Char → Option (List Nat × List Char)
  | _, _, [] => none
  | .plain, codes, character :: rest =>
      if character = '"' then some (codes, rest)
      else if character = '\\' then readCodes .escape codes rest
      else if character.toNat < 0x20 then none
      else readCodes .plain (pushCode character.toNat codes) rest
  | .escape, codes, letter :: rest =>
      if letter = 'u' then readCodes (.code 3 0) codes rest
      else
        match shortEscape? letter with
        | none => none
        | some code => readCodes .plain (pushCode code codes) rest
  | .code missing value, codes, character :: rest =>
      match hexDigit? character, missing with
      | none, _ => none
      | some digit, 0 => readCodes .plain (pushCode (value * 16 + digit) codes) rest
      | some digit, missing + 1 => readCodes (.code missing (value * 16 + digit)) codes rest

/-- Reads a text whose opening quote has been read. -/
def readText (input : List Char) : Option (Option Word × List Char) :=
  (readCodes .plain [] input).map fun (codes, rest) =>
    (codes.reverse.mapM characterOfCode?, rest)

/-! ## Values -/

/-- Reads the name of a member and the colon after it. -/
def readName (input : List Char) : Option (Option Word × List Char) :=
  match skipBlanks input with
  | '"' :: rest =>
      (readText rest).bind fun (name, rest) =>
        match skipBlanks rest with
        | ':' :: rest => some (name, rest)
        | _ => none
  | _ => none

mutual
def readValue : (fuel : Nat) → List Char → Option (Json × List Char)
  | 0, _ => none
  | fuel + 1, input =>
      match skipBlanks input with
      | 'n' :: rest => (readKeyword ['u', 'l', 'l'] rest).map fun rest => (null, rest)
      | 't' :: rest => (readKeyword ['r', 'u', 'e'] rest).map fun rest => (boolean true, rest)
      | 'f' :: rest =>
          (readKeyword ['a', 'l', 's', 'e'] rest).map fun rest => (boolean false, rest)
      | '"' :: rest => (readText rest).map fun (content, rest) => (text content, rest)
      | '[' :: rest =>
          match skipBlanks rest with
          | ']' :: rest => some (array [], rest)
          | rest => readItems fuel [] rest
      | '{' :: rest =>
          match skipBlanks rest with
          | '}' :: rest => some (object [], rest)
          | rest => readMembers fuel [] rest
      | rest => (readNumber rest).map fun (spelling, rest) => (number spelling, rest)

/-- Reads the next item of an array and all that follow. -/
def readItems : (fuel : Nat) → (earlier : List Json) → List Char → Option (Json × List Char)
  | 0, _, _ => none
  | fuel + 1, earlier, input =>
      match readValue fuel input with
      | none => none
      | some (item, rest) =>
          match skipBlanks rest with
          | ',' :: rest => readItems fuel (item :: earlier) rest
          | ']' :: rest => some (array (item :: earlier).reverse, rest)
          | _ => none

/-- Reads the next member of an object and all that follow. -/
def readMembers : (fuel : Nat) → (earlier : List (Option Word × Json)) → List Char →
    Option (Json × List Char)
  | 0, _, _ => none
  | fuel + 1, earlier, input =>
      match readName input with
      | none => none
      | some (name, rest) =>
          match readValue fuel rest with
          | none => none
          | some (value, rest) =>
              match skipBlanks rest with
              | ',' :: rest => readMembers fuel ((name, value) :: earlier) rest
              | '}' :: rest => some (object ((name, value) :: earlier).reverse, rest)
              | _ => none
end

/-- Reads the first value. Each character of the input takes at most two calls. -/
def read? (input : List Char) : Option (Json × List Char) :=
  readValue (2 * input.length + 1) input

/-- Reads a value that is followed by blanks only. -/
def readAll? (input : List Char) : Option Json :=
  match read? input with
  | some (value, rest) => if (skipBlanks rest).isEmpty then some value else none
  | none => none

end Json

end EpsilonAutomata
