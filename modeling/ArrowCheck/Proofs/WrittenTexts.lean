/-
This file proves that the text of a written type is read back as that type. The
text is split into the words of the type, and the parser makes of these words the
type again, with other places.

Brackets after a type are read in a loop, so what is read of a type that is not a
function type is stated with the brackets that may still come after it.
-/

import ArrowCheck.Proofs.Lexemes
import ArrowCheck.WrittenType.Parser

namespace ArrowCheck

open Token

/-- A symbol as a word. -/
def Symbol.word (symbol : Symbol) : Word :=
  (.symbol symbol, symbol.text)

/-- What comes next goes on from what was found. -/
theorem ok_bind {Failure Value Other : Type} (value : Value)
    (next : Value → Except Failure Other) : (Except.ok value >>= next) = next value :=
  rfl

namespace Token

/-- None of some symbols stands at the front of the tokens. -/
def Avoids (symbols : List Symbol) (tokens : List Token) : Prop :=
  ∀ token ∈ tokens.head?, ∀ symbol ∈ symbols, token.kind ≠ .symbol symbol

variable {symbol : Symbol} {symbols : List Symbol} {token : Token} {tokens rest : List Token}

theorem kind_of_word {word : Word} (same : token.word = word) : token.kind = word.1 :=
  congrArg Prod.fst same

theorem text_of_word {word : Word} (same : token.word = word) : token.text = word.2 :=
  congrArg Prod.snd same

theorem takeSymbol?_cons (isSymbol : token.kind = .symbol symbol) :
    takeSymbol? symbol (token :: rest) = some (token.span, rest) := by
  obtain ⟨kind, text, span⟩ := token
  cases isSymbol
  exact if_pos rfl

theorem takeSymbol_cons (isSymbol : token.kind = .symbol symbol) :
    takeSymbol symbol (token :: rest) = .ok (token.span, rest) := by
  rw [takeSymbol, takeSymbol?_cons isSymbol]

theorem takeName_cons (isName : token.kind = .name) :
    takeName (token :: rest) = .ok ((token.text, token.span), rest) := by
  obtain ⟨kind, text, span⟩ := token
  cases isName
  rfl

theorem takeSymbol?_eq_none (avoids : Avoids symbols tokens) (member : symbol ∈ symbols) :
    takeSymbol? symbol tokens = none := by
  unfold takeSymbol?
  split
  · next found text span rest =>
    refine if_neg fun same => ?_
    exact avoids _ rfl symbol member (congrArg Kind.symbol same)
  · rfl

theorem takeParens_nil {Value : Type}
    {takeFilled : List Token → Except ParseError (List Value × List Token)}
    (closes : token.kind = .symbol .closeParen) :
    takeParens takeFilled (token :: rest) = .ok ([], rest) := by
  rw [takeParens, takeSymbol?_cons closes]

theorem takeParens_eq {Value : Type}
    {takeFilled : List Token → Except ParseError (List Value × List Token)}
    (filled : Avoids [.closeParen] tokens) : takeParens takeFilled tokens = takeFilled tokens := by
  rw [takeParens, takeSymbol?_eq_none filled (by simp)]

theorem avoids_cons (isSymbol : token.kind = .symbol symbol) (other : symbol ∉ symbols) :
    Avoids symbols (token :: rest) := by
  rintro _ ⟨⟩ symbol' member same
  rw [isSymbol] at same
  cases same
  exact other member

theorem Avoids.mono {fewer : List Symbol} (avoids : Avoids symbols tokens)
    (subset : ∀ symbol ∈ fewer, symbol ∈ symbols) : Avoids fewer tokens :=
  fun token member symbol member' => avoids token member symbol (subset symbol member')

end Token

namespace WrittenType

mutual

/-- A written type without places. -/
def unplaced : WrittenType → WrittenType
  | .named name _ => .named name none
  | .array element _ => .array (unplaced element) none
  | .function params result _ => .function (unplacedAll params) (unplaced result) none

/-- Written types without places. -/
def unplacedAll : List WrittenType → List WrittenType
  | [] => []
  | head :: tail => unplaced head :: unplacedAll tail

end

mutual

/-- The words of a written type. -/
def words : WrittenType → List Word
  | .named name _ => [(.name, name)]
  | .array element _ =>
    if element.isFunction then
      Symbol.openParen.word :: words element ++
        [Symbol.closeParen.word, Symbol.openBracket.word, Symbol.closeBracket.word]
    else words element ++ [Symbol.openBracket.word, Symbol.closeBracket.word]
  | .function params result _ =>
    Symbol.openParen.word :: wordsAll params ++
      Symbol.closeParen.word :: Symbol.arrow.word :: words result

/-- The words of written types with commas between them. -/
def wordsAll : List WrittenType → List Word
  | [] => []
  | [last] => words last
  | head :: next :: tail => words head ++ Symbol.comma.word :: wordsAll (next :: tail)

end

mutual

/-- All names in a written type are names of the language. -/
def Named : WrittenType → Prop
  | .named name _ => isName name
  | .array element _ => Named element
  | .function params result _ => NamedAll params ∧ Named result

/-- All names in written types are names of the language. -/
def NamedAll : List WrittenType → Prop
  | [] => True
  | head :: tail => Named head ∧ NamedAll tail

end

/-! ### Splitting the text -/

theorem apart_cons {char : Char} {chars : List Char}
    (apart : char = ' ' ∨ char = ',' ∨ char = ')' ∨ char = '[') : Apart (char :: chars) := by
  intro other member
  cases member
  exact apart

section

variable {chars : List Char} {words : List Word}

/-- A symbol that is split off whatever stands after it. -/
theorem lexesTo_firm (symbol : Symbol) (firm : isFirm symbol = true)
    (lexes : LexesTo chars words) :
    LexesTo (symbol.text.toList ++ chars) (symbol.word :: words) := by
  have whole := lexes.token (begins_firm firm chars)
  rwa [String.ofList_toList] at whole

theorem lexesTo_openParen (lexes : LexesTo chars words) :
    LexesTo ('(' :: chars) (Symbol.openParen.word :: words) :=
  lexesTo_firm .openParen rfl lexes

theorem lexesTo_closeParen (lexes : LexesTo chars words) :
    LexesTo (')' :: chars) (Symbol.closeParen.word :: words) :=
  lexesTo_firm .closeParen rfl lexes

theorem lexesTo_brackets (lexes : LexesTo chars words) :
    LexesTo ('[' :: ']' :: chars)
      (Symbol.openBracket.word :: Symbol.closeBracket.word :: words) :=
  lexesTo_firm .openBracket rfl (lexesTo_firm .closeBracket rfl lexes)

theorem lexesTo_comma (lexes : LexesTo chars words) :
    LexesTo (',' :: ' ' :: chars) (Symbol.comma.word :: words) :=
  lexesTo_firm .comma rfl lexes.blank

theorem lexesTo_arrow (lexes : LexesTo chars words) :
    LexesTo (' ' :: '=' :: '>' :: ' ' :: chars) (Symbol.arrow.word :: words) :=
  (lexesTo_firm .arrow rfl lexes.blank).blank

end

mutual

/-- The text of a written type is split into its words. -/
theorem text_lexesTo (written : WrittenType) (named : written.Named) {chars : List Char}
    {words : List Word} (apart : Apart chars) (lexes : LexesTo chars words) :
    LexesTo (written.text.toList ++ chars) (written.words ++ words) := by
  match written with
  | .named name _ =>
    have whole := lexes.token (begins_name named apart)
    rwa [String.ofList_toList] at whole
  | .array element _ =>
    rw [text, WrittenType.words]
    split_ifs
    · have inner := text_lexesTo element named (apart_cons (by simp))
        (lexesTo_closeParen (lexesTo_brackets lexes))
      simpa using lexesTo_openParen inner
    · simpa using text_lexesTo element named (apart_cons (by simp)) (lexesTo_brackets lexes)
  | .function params result _ =>
    have after := lexesTo_arrow (text_lexesTo result named.2 apart lexes)
    have inner := textAll_lexesTo params named.1 (apart_cons (by simp)) (lexesTo_closeParen after)
    simpa [text, WrittenType.words] using lexesTo_openParen inner

theorem textAll_lexesTo (written : List WrittenType) (named : NamedAll written) {chars : List Char}
    {words : List Word} (apart : Apart chars) (lexes : LexesTo chars words) :
    LexesTo ((", ".intercalate (textAll written)).toList ++ chars) (wordsAll written ++ words) := by
  match written with
  | [] => simpa [textAll, wordsAll] using lexes
  | [last] => simpa [textAll, wordsAll] using text_lexesTo last named.1 apart lexes
  | head :: next :: tail =>
    have rest := textAll_lexesTo (next :: tail) named.2 apart lexes
    have whole := text_lexesTo head named.1 (apart_cons (by simp)) (lexesTo_comma rest)
    simpa [textAll, wordsAll, String.intercalate_cons_cons] using whole

end

/-! ### Parsing the words -/

theorem brackets_of_avoids (element : WrittenType) {tokens : List Token}
    (avoids : Avoids [.openBracket] tokens) : brackets element tokens = (element, tokens) := by
  unfold brackets
  split
  · exact absurd rfl (avoids _ rfl .openBracket (by simp))
  · rfl

/-- Only names are dropped. -/
theorem dropParamName_of_symbol {token : Token} {symbol : Symbol}
    (isSymbol : token.kind = .symbol symbol) (tokens : List Token) :
    dropParamName (token :: tokens) = token :: tokens := by
  obtain ⟨kind, text, span⟩ := token
  cases isSymbol
  rfl

/-- A name is dropped only before a colon, and in the words of a type there are no colons. -/
theorem dropParamName_words (written : WrittenType) {tokens rest : List Token}
    (spelled : tokens.map word = written.words) (avoids : Avoids [.colon] rest) :
    dropParamName (tokens ++ rest) = tokens ++ rest := by
  match written with
  | .named name _ =>
    obtain ⟨token, _, rfl, same, spelled'⟩ := List.map_eq_cons_iff.mp spelled
    obtain rfl := List.map_eq_nil_iff.mp spelled'
    unfold dropParamName
    split
    · next other =>
      cases other
      exact absurd rfl (avoids _ rfl .colon (by simp))
    · rfl
  | .array element _ =>
    rw [words] at spelled
    split_ifs at spelled
    · obtain ⟨opening, _, rfl, opens, _⟩ := List.map_eq_cons_iff.mp spelled
      exact dropParamName_of_symbol (kind_of_word opens) _
    · obtain ⟨inner, _, rfl, spelled', after⟩ := List.map_eq_append_iff.mp spelled
      obtain ⟨opening, _, rfl, opens, _⟩ := List.map_eq_cons_iff.mp after
      rw [List.append_assoc]
      exact dropParamName_words element spelled' (avoids_cons (kind_of_word opens) (by simp))
  | .function _ _ _ =>
    obtain ⟨opening, _, rfl, opens, _⟩ := List.map_eq_cons_iff.mp spelled
    exact dropParamName_of_symbol (kind_of_word opens) _

section

variable {depth : Nat} {token : Token} {tokens rest : List Token} {params : List WrittenType}
  {written : WrittenType}

theorem parseType_of_atom (parsed : parseAtom depth tokens = .ok (written, rest)) :
    parseType (depth + 1) tokens = .ok (brackets written rest) := by
  show (parseAtom depth tokens >>= _) = _
  rw [parsed]
  rfl

theorem parseAtom_name (isName : token.kind = .name) (avoids : Avoids [.binary .less] rest) :
    parseAtom (depth + 1) (token :: rest) = .ok (.named token.text (some token.span), rest) := by
  obtain ⟨kind, text, span⟩ := token
  cases isName
  show (if text = "Array" then _ else _) = _
  split_ifs
  · rw [takeSymbol?_eq_none avoids (by simp)]
    rfl
  · rfl

theorem parseAtom_openParen (opens : token.kind = .symbol .openParen) :
    parseAtom (depth + 1) (token :: tokens) = (do
      let (params, rest) ← takeParens (parseParams depth) tokens
      parseAfterParams (parseType depth) token.span params rest) := by
  obtain ⟨kind, text, span⟩ := token
  cases opens
  rfl

theorem parseAtom_group (opens : token.kind = .symbol .openParen)
    (parsed : takeParens (parseParams depth) tokens = .ok ([written], rest))
    (avoids : Avoids [.arrow] rest) :
    parseAtom (depth + 1) (token :: tokens) = .ok (written, rest) := by
  rw [parseAtom_openParen opens, parsed]
  show parseAfterParams (parseType depth) token.span [written] rest = _
  unfold parseAfterParams
  rw [takeSymbol?_eq_none avoids (by simp)]
  rfl

theorem parseAtom_function {arrow : Token} {after : List Token} {result : WrittenType}
    (opens : token.kind = .symbol .openParen)
    (parsed : takeParens (parseParams depth) tokens = .ok (params, arrow :: after))
    (points : arrow.kind = .symbol .arrow)
    (resultParsed : parseType depth after = .ok (result, rest)) :
    parseAtom (depth + 1) (token :: tokens) =
      .ok (.function params result (Span.join (some token.span) result.span), rest) := by
  rw [parseAtom_openParen opens, parsed]
  show parseAfterParams (parseType depth) token.span params (arrow :: after) = _
  unfold parseAfterParams
  rw [takeSymbol?_cons points]
  show (parseType depth after >>= _) = _
  rw [resultParsed]
  rfl

theorem parseParams_last {closing : Token}
    (parsed : parseType depth (dropParamName tokens) = .ok (written, closing :: rest))
    (closes : closing.kind = .symbol .closeParen) :
    parseParams (depth + 1) tokens = .ok ([written], rest) := by
  show (parseType depth (dropParamName tokens) >>= _) = _
  rw [parsed, ok_bind]
  have noComma : Avoids [.comma] (closing :: rest) := avoids_cons closes (by simp)
  have absent : takeSymbol? .comma (closing :: rest) = none := takeSymbol?_eq_none noComma (by simp)
  simp only [absent]
  show (takeSymbol .closeParen (closing :: rest) >>= _) = _
  rw [takeSymbol_cons closes]
  rfl

theorem parseParams_cons {comma : Token} {after : List Token}
    (parsed : parseType depth (dropParamName tokens) = .ok (written, comma :: after))
    (separates : comma.kind = .symbol .comma)
    (more : parseParams depth after = .ok (params, rest)) :
    parseParams (depth + 1) tokens = .ok (written :: params, rest) := by
  show (parseType depth (dropParamName tokens) >>= _) = _
  rw [parsed, ok_bind]
  simp only [takeSymbol?_cons separates]
  show (parseParams depth after >>= _) = _
  rw [more]
  rfl

end

/-- The words of the type are read back as the type, up to its places. -/
def ReadsBack (written : WrittenType) : Prop :=
  ∀ (tokens rest : List Token) (depth : Nat), tokens.map word = written.words →
    Avoids [.binary .less, .openBracket] rest → 10 * tokens.length ≤ depth →
    ∃ read, parseType depth (tokens ++ rest) = .ok (read, rest) ∧ read.unplaced = written.unplaced

/-- The words of a type that is not a function type are read back before any brackets. -/
def ReadsOpen (written : WrittenType) : Prop :=
  ∀ (tokens rest : List Token) (depth : Nat), tokens.map word = written.words →
    Avoids [.binary .less] rest → 10 * tokens.length ≤ depth →
    ∃ read, parseType depth (tokens ++ rest) = .ok (brackets read rest) ∧
      read.unplaced = written.unplaced

/-- The words of parameters are read back as the parameters, up to their places. -/
def ReadsBackAll (params : List WrittenType) : Prop :=
  ∀ (tokens : List Token) (closing : Token) (rest : List Token) (depth : Nat),
    tokens.map word = wordsAll params → closing.kind = .symbol .closeParen →
    10 * tokens.length < depth →
    ∃ read, parseParams depth (tokens ++ closing :: rest) = .ok (read, rest) ∧
      unplacedAll read = unplacedAll params

theorem ReadsOpen.readsBack {written : WrittenType} (reads : written.ReadsOpen) :
    written.ReadsBack := by
  intro tokens rest depth spelled avoids enough
  obtain ⟨read, parsed, same⟩ := reads tokens rest depth spelled (avoids.mono (by simp)) enough
  refine ⟨read, ?_, same⟩
  rw [parsed, brackets_of_avoids read (avoids.mono (by simp))]

theorem named_readsOpen (name : String) (span : Option Span) :
    (WrittenType.named name span).ReadsOpen := by
  intro tokens rest depth spelled avoids enough
  obtain ⟨token, _, rfl, same, spelled'⟩ := List.map_eq_cons_iff.mp spelled
  obtain rfl := List.map_eq_nil_iff.mp spelled'
  obtain ⟨depth, rfl⟩ : ∃ fewer, depth = fewer + 2 := ⟨depth - 2, by simp at enough; omega⟩
  refine ⟨.named token.text (some token.span), ?_, by rw [text_of_word same]; rfl⟩
  exact parseType_of_atom (parseAtom_name (kind_of_word same) avoids)

theorem brackets_cons {opening closing : Token} (opens : opening.kind = .symbol .openBracket)
    (closes : closing.kind = .symbol .closeBracket) (element : WrittenType) (rest : List Token) :
    brackets element (opening :: closing :: rest) =
      brackets (.array element (Span.join element.span (some closing.span))) rest := by
  obtain ⟨kind, text, span⟩ := opening
  obtain ⟨kind', text', span'⟩ := closing
  cases opens
  cases closes
  rfl

/-- The words of a type start with a name or an opening parenthesis. -/
theorem avoids_of_words {written : WrittenType} {tokens rest : List Token}
    (spelled : tokens.map word = written.words) : Avoids [.closeParen] (tokens ++ rest) := by
  match written with
  | .named name _ =>
    obtain ⟨token, _, rfl, same, _⟩ := List.map_eq_cons_iff.mp spelled
    rintro _ ⟨⟩ symbol _ other
    rw [kind_of_word same] at other
    cases other
  | .array element _ =>
    rw [words] at spelled
    split_ifs at spelled
    · obtain ⟨opening, _, rfl, opens, _⟩ := List.map_eq_cons_iff.mp spelled
      exact avoids_cons (kind_of_word opens) (by simp)
    · obtain ⟨inner, _, rfl, spelled', _⟩ := List.map_eq_append_iff.mp spelled
      rw [List.append_assoc]
      exact avoids_of_words spelled'
  | .function _ _ _ =>
    obtain ⟨opening, _, rfl, opens, _⟩ := List.map_eq_cons_iff.mp spelled
    exact avoids_cons (kind_of_word opens) (by simp)

theorem takeParens_of_words {written : WrittenType} {tokens rest : List Token} {depth : Nat}
    (spelled : tokens.map word = written.words) :
    takeParens (parseParams depth) (tokens ++ rest) = parseParams depth (tokens ++ rest) :=
  takeParens_eq (avoids_of_words spelled)

/-- Brackets after a type that is not a function type join what was read before them. -/
theorem array_readsOpen {element : WrittenType} (plain : element.isFunction = false)
    (reads : element.ReadsOpen) (span : Option Span) : (array element span).ReadsOpen := by
  intro tokens rest depth spelled avoids enough
  rw [words, if_neg (by simp [plain])] at spelled
  obtain ⟨inner, _, rfl, spelled', after⟩ := List.map_eq_append_iff.mp spelled
  obtain ⟨opening, _, rfl, opens, after'⟩ := List.map_eq_cons_iff.mp after
  obtain ⟨closing, _, rfl, closes, after''⟩ := List.map_eq_cons_iff.mp after'
  obtain rfl := List.map_eq_nil_iff.mp after''
  obtain ⟨read, parsed, same⟩ := reads inner (opening :: closing :: rest) depth spelled'
    (avoids_cons (kind_of_word opens) (by simp)) (by simp at enough; omega)
  refine ⟨.array read (Span.join read.span (some closing.span)), ?_, ?_⟩
  · rw [List.append_assoc, List.cons_append, List.cons_append, List.nil_append, parsed,
      brackets_cons (kind_of_word opens) (kind_of_word closes)]
  · rw [unplaced, same, unplaced]

/-- A function type is read back in its parentheses before brackets. -/
theorem group_readsOpen {element : WrittenType} (isFunction : element.isFunction = true)
    (reads : element.ReadsBack) (span : Option Span) : (array element span).ReadsOpen := by
  intro tokens rest depth spelled avoids enough
  rw [words, if_pos isFunction] at spelled
  obtain ⟨opening, _, rfl, opens, more⟩ := List.map_eq_cons_iff.mp spelled
  obtain ⟨inner, _, rfl, spelled', after⟩ := List.map_eq_append_iff.mp more
  obtain ⟨closing, _, rfl, closes, after⟩ := List.map_eq_cons_iff.mp after
  obtain ⟨opening', _, rfl, opens', after⟩ := List.map_eq_cons_iff.mp after
  obtain ⟨closing', _, rfl, closes', after⟩ := List.map_eq_cons_iff.mp after
  obtain rfl := List.map_eq_nil_iff.mp after
  simp only [List.length_cons, List.length_append, List.length_nil] at enough
  obtain ⟨depth, rfl⟩ : ∃ fewer, depth = fewer + 3 := ⟨depth - 3, by omega⟩
  have closed : Avoids [.binary .less, .openBracket, .colon]
      (closing :: opening' :: closing' :: rest) := avoids_cons (kind_of_word closes) (by simp)
  obtain ⟨read, parsed, same⟩ := reads inner (closing :: opening' :: closing' :: rest) depth
    spelled' (closed.mono (by simp)) (by omega)
  rw [← dropParamName_words element spelled' (closed.mono (by simp))] at parsed
  have filled := (takeParens_of_words spelled').trans
    (parseParams_last parsed (kind_of_word closes))
  have atom := parseAtom_group (kind_of_word opens) filled
    (avoids_cons (kind_of_word opens') (by simp))
  refine ⟨.array read (Span.join read.span (some closing'.span)), ?_, ?_⟩
  · rw [List.cons_append, List.append_assoc]
    exact (parseType_of_atom atom).trans
      (congrArg _ (brackets_cons (kind_of_word opens') (kind_of_word closes') read rest))
  · rw [unplaced, same, unplaced]

theorem readsBackAll_last {last : WrittenType} (reads : last.ReadsBack) : ReadsBackAll [last] := by
  intro tokens closing rest depth spelled closes enough
  obtain ⟨depth, rfl⟩ : ∃ fewer, depth = fewer + 1 := ⟨depth - 1, by omega⟩
  have closed : Avoids [.binary .less, .openBracket, .colon] (closing :: rest) :=
    avoids_cons closes (by simp)
  obtain ⟨read, parsed, same⟩ := reads tokens (closing :: rest) depth spelled
    (closed.mono (by simp)) (by omega)
  rw [← dropParamName_words last spelled (closed.mono (by simp))] at parsed
  exact ⟨[read], parseParams_last parsed closes, by rw [unplacedAll, same]; rfl⟩

theorem readsBackAll_cons {head next : WrittenType} {tail : List WrittenType}
    (reads : head.ReadsBack) (readsAll : ReadsBackAll (next :: tail)) :
    ReadsBackAll (head :: next :: tail) := by
  intro tokens closing rest depth spelled closes enough
  obtain ⟨first, _, rfl, spelled', after⟩ := List.map_eq_append_iff.mp spelled
  obtain ⟨comma, more, rfl, separates, spelledMore⟩ := List.map_eq_cons_iff.mp after
  simp only [List.length_append, List.length_cons] at enough
  obtain ⟨depth, rfl⟩ : ∃ fewer, depth = fewer + 1 := ⟨depth - 1, by omega⟩
  have apart : Avoids [.binary .less, .openBracket, .colon] (comma :: (more ++ closing :: rest)) :=
    avoids_cons (kind_of_word separates) (by simp)
  obtain ⟨read, parsed, same⟩ := reads first (comma :: (more ++ closing :: rest)) depth spelled'
    (apart.mono (by simp)) (by omega)
  obtain ⟨readAll, parsedAll, sameAll⟩ := readsAll more closing rest depth spelledMore closes
    (by omega)
  rw [← dropParamName_words head spelled' (apart.mono (by simp))] at parsed
  refine ⟨read :: readAll, ?_, by rw [unplacedAll, same, sameAll]; rfl⟩
  rw [List.append_assoc]
  exact parseParams_cons parsed (kind_of_word separates) parsedAll

theorem ReadsBackAll.parens {params : List WrittenType} (reads : params ≠ [] → ReadsBackAll params)
    {tokens : List Token} {closing : Token} (rest : List Token) {depth : Nat}
    (spelled : tokens.map word = wordsAll params) (closes : closing.kind = .symbol .closeParen)
    (enough : 10 * tokens.length < depth) :
    ∃ read, takeParens (parseParams depth) (tokens ++ closing :: rest) = .ok (read, rest) ∧
      unplacedAll read = unplacedAll params := by
  match params with
  | [] =>
    obtain rfl := List.map_eq_nil_iff.mp spelled
    exact ⟨[], takeParens_nil closes, rfl⟩
  | [last] =>
    rw [takeParens_of_words spelled]
    exact reads (by simp) tokens closing rest depth spelled closes enough
  | head :: next :: tail =>
    obtain ⟨first, more, rfl, spelled', _⟩ := List.map_eq_append_iff.mp spelled
    have filled := @takeParens_of_words head first (more ++ closing :: rest) depth spelled'
    rw [← List.append_assoc] at filled
    rw [filled]
    exact reads (by simp) _ closing rest depth spelled closes enough

theorem function_readsBack {params : List WrittenType} {result : WrittenType}
    (readsParams : params ≠ [] → ReadsBackAll params) (reads : result.ReadsBack)
    (span : Option Span) : (function params result span).ReadsBack := by
  intro tokens rest depth spelled avoids enough
  obtain ⟨opening, _, rfl, opens, more⟩ := List.map_eq_cons_iff.mp spelled
  obtain ⟨inner, _, rfl, spelled', after⟩ := List.map_eq_append_iff.mp more
  obtain ⟨closing, _, rfl, closes, after⟩ := List.map_eq_cons_iff.mp after
  obtain ⟨arrow, final, rfl, points, spelledResult⟩ := List.map_eq_cons_iff.mp after
  simp only [List.length_cons, List.length_append] at enough
  obtain ⟨depth, rfl⟩ : ∃ fewer, depth = fewer + 2 := ⟨depth - 2, by omega⟩
  obtain ⟨read, parsed, same⟩ := reads final rest depth spelledResult avoids (by omega)
  have few : 10 * inner.length < depth := by omega
  obtain ⟨readParams, parsedParams, sameParams⟩ := ReadsBackAll.parens readsParams
    (arrow :: (final ++ rest)) spelled' (kind_of_word closes) few
  have atom := parseAtom_function (kind_of_word opens) parsedParams (kind_of_word points) parsed
  refine ⟨.function readParams read (Span.join (some opening.span) read.span), ?_, ?_⟩
  · rw [List.cons_append, List.append_assoc]
    exact (parseType_of_atom atom).trans
      (congrArg _ (brackets_of_avoids _ (avoids.mono (by simp))))
  · rw [unplaced, same, sameParams, unplaced]

mutual

/-- The words of a type are read back as that type. -/
theorem readsBack (written : WrittenType) :
    written.ReadsBack ∧ (written.isFunction = false → written.ReadsOpen) := by
  match written with
  | .named name span =>
    have reads := named_readsOpen name span
    exact ⟨reads.readsBack, fun _ => reads⟩
  | .array element span =>
    obtain ⟨back, goesOn⟩ := readsBack element
    have reads : (array element span).ReadsOpen := by
      by_cases isFunction : element.isFunction = true
      · exact group_readsOpen isFunction back span
      · rw [Bool.not_eq_true] at isFunction
        exact array_readsOpen isFunction (goesOn isFunction) span
    exact ⟨reads.readsBack, fun _ => reads⟩
  | .function params result span =>
    refine ⟨?_, fun plain => absurd plain (by simp [isFunction])⟩
    exact function_readsBack (readsBackAll params) (readsBack result).1 span

theorem readsBackAll (params : List WrittenType) (some : params ≠ []) : ReadsBackAll params := by
  match params, some with
  | [last], _ => exact readsBackAll_last (readsBack last).1
  | head :: next :: tail, _ =>
    exact readsBackAll_cons (readsBack head).1 (readsBackAll (next :: tail) (by simp))

end

/-- The words of a type before something that is not a part of it are parsed as that type. -/
theorem parse_words {written : WrittenType} {tokens rest : List Token}
    (spelled : tokens.map word = written.words)
    (avoids : Avoids [.binary .less, .openBracket] rest) :
    ∃ read, parse (tokens ++ rest) = .ok (read, rest) ∧ read.unplaced = written.unplaced := by
  refine (readsBack written).1 tokens rest _ spelled avoids ?_
  simp [depthBound]
  omega

end WrittenType

end ArrowCheck
