import EpsilonAutomata.Json

/-!
Writing JSON without blanks.

Inside a text a backslash stands before a quote, a backslash, or the letter of a short escape;
other characters below the space are written by their code, and all else stands for itself.
-/

namespace EpsilonAutomata

namespace Json

def writeCharacter (character : Char) : List Char :=
  if character = '"' then ['\\', '"']
  else if character = '\\' then ['\\', '\\']
  else if character = '\x08' then ['\\', 'b']
  else if character = '\t' then ['\\', 't']
  else if character = '\n' then ['\\', 'n']
  else if character = '\x0c' then ['\\', 'f']
  else if character = '\r' then ['\\', 'r']
  else if character.toNat < 0x20 then
    ['\\', 'u', '0', '0', Nat.digitChar (character.toNat / 16), Nat.digitChar (character.toNat % 16)]
  else [character]

/-- A text without content is written as the escape of half a surrogate pair. -/
def writeText : Option Word → List Char
  | none => ['"', '\\', 'u', 'd', '8', '0', '0', '"']
  | some content => '"' :: content.flatMap writeCharacter ++ ['"']

mutual
def write : Json → List Char
  | null => ['n', 'u', 'l', 'l']
  | boolean true => ['t', 'r', 'u', 'e']
  | boolean false => ['f', 'a', 'l', 's', 'e']
  | number spelling => spelling
  | text content => writeText content
  | array [] => ['[', ']']
  | array (first :: rest) => '[' :: (first.write ++ writeItems rest)
  | object [] => ['{', '}']
  | object ((name, value) :: rest) =>
      '{' :: (writeText name ++ ':' :: (value.write ++ writeMembers rest))

/-- The items after the first, and the end of the array. -/
def writeItems : List Json → List Char
  | [] => [']']
  | item :: rest => ',' :: (item.write ++ writeItems rest)

/-- The members after the first, and the end of the object. -/
def writeMembers : List (Option Word × Json) → List Char
  | [] => ['}']
  | (name, value) :: rest =>
      ',' :: (writeText name ++ ':' :: (value.write ++ writeMembers rest))
end

example : (array [null, ofNat 10, ofString "a\"\n"]).write = "[null,10,\"a\\\"\\n\"]".toList := rfl

end Json

end EpsilonAutomata
