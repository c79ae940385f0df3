/-
This file decodes quoted texts: the quotes are taken off and escapes are
replaced by the characters that they stand for.
-/

import ArrowCheck.Token.Basic

namespace ArrowCheck.Quoted

/-- The character that a backslash and a character after it stand for. -/
def escaped (char : Char) : Char :=
  if char = 'n' then '\n'
  else if char = 't' then '\t'
  else if char = 'r' then '\r'
  else if char = '0' then Char.ofNat 0
  else char

/-- Characters with the escapes among them replaced. A backslash at the very end stands for itself.
-/
def decodeChars : List Char → List Char
  | [] => []
  | ['\\'] => ['\\']
  | '\\' :: char :: rest => escaped char :: decodeChars rest
  | char :: rest => char :: decodeChars rest

/-- The characters between the first and the last byte of a text. There are none if one of these
bytes is only a part of its character, or if the text has fewer than two bytes. -/
def inside (chars : List Char) : List Char :=
  match chars with
  | first :: rest =>
    match rest.getLast? with
    | some last => if first.utf8Size = 1 && last.utf8Size = 1 then rest.dropLast else []
    | none => []
  | [] => []

/-- The text that a quoted literal stands for. -/
def decode (lexeme : String) : String :=
  String.ofList (decodeChars (inside lexeme.toList))

end ArrowCheck.Quoted
