/-
This file parses written types: names, `Array<…>`, brackets after a type, and
function types whose parameters may have names. Parentheses around a single type
only group it.
-/

import ArrowCheck.Token.ParseError
import ArrowCheck.WrittenType.Basic

namespace ArrowCheck.WrittenType

/-- Pairs of brackets after a type, each of which makes an array of what stands before it. -/
def brackets (element : WrittenType) : List Token → WrittenType × List Token
  | ⟨.symbol .openBracket, _, _⟩ :: ⟨.symbol .closeBracket, _, close⟩ :: rest =>
    brackets (.array element (Span.join element.span (some close))) rest
  | tokens => (element, tokens)

/-- The tokens without the name that a parameter of a function type may have. -/
def dropParamName : List Token → List Token
  | ⟨.name, _, _⟩ :: ⟨.symbol .colon, _, _⟩ :: rest => rest
  | tokens => tokens

section

variable (parseType : List Token → Except ParseError (WrittenType × List Token))

/-- What stands after types in parentheses decides whether they are the parameters of a function
type or a type that is grouped. -/
def parseAfterParams (opening : Span) (params : List WrittenType) (tokens : List Token) :
    Except ParseError (WrittenType × List Token) :=
  match Token.takeSymbol? .arrow tokens with
  | some (_, rest) => do
    let (result, rest) ← parseType rest
    pure (.function params result (Span.join (some opening) result.span), rest)
  | none =>
    match params with
    | [grouped] => pure (grouped, tokens)
    | _ => .error (.missing (.symbol .arrow) tokens)

/-- A name, or an array type that is written with that word. -/
def parseNamed (tokens : List Token) : Except ParseError (WrittenType × List Token) := do
  let ((name, span), rest) ← Token.takeName tokens
  if name = "Array" then
    match Token.takeSymbol? (.binary .less) rest with
    | some (_, rest) => do
      let (element, rest) ← parseType rest
      let (close, rest) ← Token.takeSymbol (.binary .greater) rest
      pure (.array element (some (span.cover close)), rest)
    | none => pure (.named name (some span), rest)
  else pure (.named name (some span), rest)

end

mutual

/-- A written type. -/
def parseType : (depth : Nat) → List Token → Except ParseError (WrittenType × List Token)
  | 0, _ => .error .tooDeep
  | depth + 1, tokens => do
    let (atom, rest) ← parseAtom depth tokens
    pure (brackets atom rest)

/-- A written type without brackets after it. -/
def parseAtom : (depth : Nat) → List Token → Except ParseError (WrittenType × List Token)
  | 0, _ => .error .tooDeep
  | depth + 1, ⟨.symbol .openParen, _, opening⟩ :: rest => do
    let (params, rest) ← Token.takeParens (parseParams depth) rest
    parseAfterParams (parseType depth) opening params rest
  | depth + 1, tokens => parseNamed (parseType depth) tokens

/-- The parameters of a function type up to the closing parenthesis, of which there is at least one.
-/
def parseParams : (depth : Nat) → List Token → Except ParseError (List WrittenType × List Token)
  | 0, _ => .error .tooDeep
  | depth + 1, tokens => do
    let (param, rest) ← parseType depth (dropParamName tokens)
    match Token.takeSymbol? .comma rest with
    | some (_, rest) => do
      let (params, rest) ← parseParams depth rest
      pure (param :: params, rest)
    | none => do
      let (_, rest) ← Token.takeSymbol .closeParen rest
      pure ([param], rest)

end

/-- The written type at the front of the tokens. -/
def parse (tokens : List Token) : Except ParseError (WrittenType × List Token) :=
  parseType (Token.depthBound tokens) tokens

end ArrowCheck.WrittenType
