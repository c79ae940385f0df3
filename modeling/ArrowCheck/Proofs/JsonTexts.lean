/-
This file shows that the indented text of a JSON value determines it. The first
character of a text shows what a value is on the outside. Numbers end where
something else than a digit or a mark of a number stands, strings where a quote
stands that is not escaped, and arrays and objects where no comma follows a part.
A number that is not finite is written like `null`, so values with such numbers
are left out.
-/

import ArrowCheck.Json
import ArrowCheck.Proofs.NumberTexts
import ArrowCheck.Proofs.Readability

namespace ArrowCheck

namespace Json

open Decimal

/-! ### Strings -/

/-- The value of a digit of base sixteen. -/
def hexValue (digit : Char) : ℕ :=
  if digit.isDigit then digit.toNat - '0'.toNat else digit.toNat - 'a'.toNat + 10

/-- The character that stands for an escaped one after a backslash. -/
def named (mark : Char) : Char :=
  if mark = 'b' then '\x08'
  else if mark = 't' then '\t'
  else if mark = 'n' then '\n'
  else if mark = 'f' then '\x0c'
  else if mark = 'r' then '\r'
  else mark

/-- The first character of a quoted text after its opening quote, and what is left of the text. The
closing quote is no character. -/
def unescape? : List Char → Option (Char × List Char)
  | [] => none
  | char :: rest =>
    if char = '"' then none
    else if char = '\\' then
      match rest with
      | 'u' :: _ :: _ :: high :: low :: rest =>
        some (Char.ofNat (16 * hexValue high + hexValue low), rest)
      | mark :: rest => some (named mark, rest)
      | [] => none
    else some (char, rest)

theorem hexValue_hexDigit : ∀ count < 16, hexValue (hexDigit count) = count := by
  decide

theorem unescape?_escape (char : Char) (rest : List Char) :
    unescape? (escape char ++ rest) = some (char, rest) := by
  rw [escape]
  split_ifs with quote backslash backspace tab line page return' control
  · rw [quote]; rfl
  · rw [backslash]; rfl
  · rw [backspace]; rfl
  · rw [tab]; rfl
  · rw [line]; rfl
  · rw [page]; rfl
  · rw [return']; rfl
  · have high := hexValue_hexDigit (char.toNat / 16) (by omega)
    have low := hexValue_hexDigit (char.toNat % 16) (by omega)
    simp [unescape?, high, low, Nat.div_add_mod]
  · simp [unescape?, quote, backslash]

/-- Quoted strings are read off whatever follows them. -/
theorem quote_readOff {text text' : String} {rest rest' : List Char}
    (same : (quote text).toList ++ rest = (quote text').toList ++ rest') :
    text = text' ∧ rest = rest' := by
  have each : ∀ chars chars' : List Char,
      chars.flatMap escape ++ '"' :: rest = chars'.flatMap escape ++ '"' :: rest' →
        chars = chars' ∧ rest = rest' := by
    intro chars
    induction chars with
    | nil =>
      intro chars' same
      cases chars' with
      | nil => simpa using same
      | cons char' chars' =>
        have read := congrArg unescape? same
        rw [List.flatMap_cons, List.append_assoc, unescape?_escape] at read
        cases read
    | cons char chars inductionHypothesis =>
      intro chars' same
      have read := congrArg unescape? same
      rw [List.flatMap_cons, List.append_assoc, unescape?_escape] at read
      cases chars' with
      | nil => cases read
      | cons char' chars' =>
        rw [List.flatMap_cons, List.append_assoc, unescape?_escape] at read
        obtain ⟨rfl, others⟩ := Prod.mk.inj (Option.some.inj read)
        obtain ⟨rfl, left⟩ := inductionHypothesis chars' others
        exact ⟨rfl, left⟩
  obtain ⟨chars, left⟩ := each text.toList text'.toList (by simpa [quote] using same)
  exact ⟨String.toList_injective chars, left⟩

/-! ### First characters -/

mutual

/-- The numbers of the language that stand in a value. -/
@[simp]
def numbers : Json → List Binary64
  | .null | .bool _ | .nat _ | .string _ => []
  | .number value => [value]
  | .array items => numbersAll items
  | .object members => numbersOf members

/-- The numbers that stand in values. -/
@[simp]
def numbersAll : List Json → List Binary64
  | [] => []
  | head :: tail => numbers head ++ numbersAll tail

/-- The numbers that stand in the values of members. -/
@[simp]
def numbersOf : List (String × Json) → List Binary64
  | [] => []
  | (_, value) :: tail => numbers value ++ numbersOf tail

end

/-- Every number in a value is finite. -/
def Finite (value : Json) : Prop :=
  ∀ number ∈ value.numbers, number.isFinite = true

/-- Texts of numbers from which finite numbers can be read. They are made of digits and marks, and
since there is a mark among these, none of them is the text of a count. -/
structure Faithful (showNumber : Binary64 → String) : Prop where
  numeric {number : Binary64} (finite : number.isFinite = true) :
    ∃ first more, (showNumber number).toList = first :: more ∧
      (∀ char ∈ first :: more, isNumeric char) ∧ ∃ mark ∈ first :: more, mark.isDigit = false
  inj {number number' : Binary64} (finite : number.isFinite = true)
    (finite' : number'.isFinite = true) (same : showNumber number = showNumber number') :
    number = number'

theorem faithful_numberText : Faithful numberText :=
  ⟨numberText_numeric, numberText_inj⟩

/-- What a value is on the outside; counts and numbers look alike. -/
inductive Outside where
  | null
  | bool (value : Bool)
  | numeral
  | string
  | array
  | object
deriving DecidableEq

/-- What a value is on the outside. -/
def outside : Json → Outside
  | .null => .null
  | .bool value => .bool value
  | .nat _ | .number _ => .numeral
  | .string _ => .string
  | .array _ => .array
  | .object _ => .object

/-- What a value is on the outside, as the first character of its text shows it. -/
def Outside.ofFirst (first : Char) : Outside :=
  if first = 'n' then .null
  else if first = 't' then .bool true
  else if first = 'f' then .bool false
  else if first = '"' then .string
  else if first = '[' then .array
  else if first = '\x7b' then .object
  else .numeral

theorem Outside.ofFirst_of_isNumeric {first : Char} (numeric : isNumeric first = true) :
    ofFirst first = .numeral := by
  have apart : ∀ char : Char, isNumeric char = false → first ≠ char := by
    rintro char other rfl
    simp [numeric] at other
  simp [ofFirst, apart 'n' rfl, apart 't' rfl, apart 'f' rfl, apart '"' rfl, apart '[' rfl,
    apart '\x7b' rfl]

theorem toList_newLine (depth : ℕ) :
    (newLine depth).toList = '\n' :: List.replicate (2 * depth) ' ' :=
  String.toList_ofList

theorem bracketed_first (left right : String) (depth : ℕ) (parts : List String) :
    ∃ more, (bracketed left right depth parts).toList = left.toList ++ more := by
  rw [bracketed]
  split_ifs <;> simp

variable {showNumber : Binary64 → String}

/-- The first character of a value shows what it is on the outside. -/
theorem indented_first (faithful : Faithful showNumber) (depth : ℕ) {value : Json}
    (finite : Finite value) :
    ∃ first more, (indented showNumber depth value).toList = first :: more ∧
      Outside.ofFirst first = value.outside := by
  cases value with
  | null => exact ⟨'n', ['u', 'l', 'l'], by rw [indented]; rfl, rfl⟩
  | bool value =>
    cases value with
    | true => exact ⟨'t', ['r', 'u', 'e'], by rw [indented]; rfl, rfl⟩
    | false => exact ⟨'f', ['a', 'l', 's', 'e'], by rw [indented]; rfl, rfl⟩
  | nat count =>
    obtain ⟨first, more, starts, digits⟩ := repr_numeric count
    refine ⟨first, more, by rw [indented, starts], Outside.ofFirst_of_isNumeric ?_⟩
    exact isNumeric_of_isDigit (digits first List.mem_cons_self)
  | number number =>
    obtain ⟨first, more, starts, numeric, -⟩ :=
      faithful.numeric (finite number (by simp))
    exact ⟨first, more, by rw [indented, starts],
      Outside.ofFirst_of_isNumeric (numeric first List.mem_cons_self)⟩
  | string text =>
    exact ⟨'"', text.toList.flatMap escape ++ ['"'], by simp [indented, quote], rfl⟩
  | array items =>
    obtain ⟨more, starts⟩ := bracketed_first "[" "]" depth (indentedItems showNumber depth items)
    exact ⟨'[', more, by rw [indented, starts]; rfl, rfl⟩
  | object members =>
    obtain ⟨more, starts⟩ :=
      bracketed_first "\x7b" "\x7d" depth (indentedMembers showNumber depth members)
    exact ⟨'\x7b', more, by rw [indented, starts]; rfl, rfl⟩

theorem outside_eq (faithful : Faithful showNumber) {depth : ℕ} {value value' : Json}
    (finite : Finite value) (finite' : Finite value') {rest rest' : List Char}
    (same : (indented showNumber depth value).toList ++ rest =
      (indented showNumber depth value').toList ++ rest') :
    value.outside = value'.outside := by
  obtain ⟨first, more, starts, kind⟩ := indented_first faithful depth finite
  obtain ⟨first', more', starts', kind'⟩ := indented_first faithful depth finite'
  rw [starts, starts'] at same
  rw [← kind, ← kind', (List.cons.inj same).1]

/-! ### Values -/

/-- What may stand after a value: the mark before another part, and the line on which the parts
end. -/
def Follows (char : Char) : Prop :=
  char = ',' ∨ char = '\n'

theorem Follows.isNumeric {rest : List Char} (follow : Follow Follows rest) :
    ∀ char ∈ rest.head?, isNumeric char = false := by
  intro char member
  rcases follow char member with rfl | rfl <;> rfl

/-- A value that stands at a given depth is read off by its indented text. -/
abbrev IsReadOff (showNumber : Binary64 → String) (depth : ℕ) : Json → Prop :=
  ReadOff Finite (indented showNumber depth) Follows

theorem isNumeric_indented (faithful : Faithful showNumber) {depth : ℕ} {value : Json}
    (finite : Finite value) (numeral : value.outside = .numeral) :
    ∀ char ∈ (indented showNumber depth value).toList, isNumeric char := by
  cases value with
  | nat count =>
    obtain ⟨first, more, starts, digits⟩ := repr_numeric count
    rw [indented, starts]
    exact fun char member => isNumeric_of_isDigit (digits char member)
  | number number =>
    obtain ⟨first, more, starts, numeric, -⟩ :=
      faithful.numeric (finite number (by simp))
    rw [indented, starts]
    exact numeric
  | _ => cases numeral

/-- Numbers with the text of a count are not finite. -/
theorem Faithful.ne_repr (faithful : Faithful showNumber) {number : Binary64}
    (finite : number.isFinite = true) (count : ℕ) : showNumber number ≠ count.repr := by
  intro same
  obtain ⟨first, more, starts, -, mark, member, outside⟩ := faithful.numeric finite
  rw [same, Nat.toList_repr] at starts
  rw [← starts] at member
  rw [isDigit_toDigits count mark member] at outside
  cases outside

/-- Counts and numbers are read off. -/
theorem numeral_isReadOff (faithful : Faithful showNumber) (depth : ℕ) {value : Json}
    (finite : Finite value) (numeral : value.outside = .numeral) :
    IsReadOff showNumber depth value := by
  intro value' rest rest' finite' follow follow' same
  have numeral' : value'.outside = .numeral :=
    (outside_eq faithful finite finite' same).symm.trans numeral
  obtain ⟨chars, left⟩ := run_readOff (isNumeric_indented faithful finite numeral)
    (isNumeric_indented faithful finite' numeral') (Follows.isNumeric follow)
    (Follows.isNumeric follow') same
  have texts := String.toList_injective chars
  refine ⟨?_, left⟩
  cases value with
  | nat count =>
    cases value' with
    | nat count' =>
      have counts := congrArg value chars
      simpa [indented, value_toDigits] using counts
    | number number' =>
      have finite' := finite' number' (by simp)
      exact absurd texts.symm (faithful.ne_repr finite' count)
    | _ => cases numeral'
  | number number =>
    have finite := finite number (by simp)
    cases value' with
    | nat count' => exact absurd texts (faithful.ne_repr finite count')
    | number number' =>
      rw [faithful.inj finite (finite' number' (by simp)) texts]
    | _ => cases numeral'
  | _ => cases numeral

/-- Parts between brackets are read off if each of them is. -/
theorem bracketed_readOff {α : Type} {proper : α → Prop} {text : α → String} {left right : String}
    {bracket : Char} (closes : right.toList = [bracket]) (apart : bracket ≠ '\n') {depth : ℕ}
    {items items' : List α} (each : ∀ item ∈ items, ReadOff proper text Follows item)
    (every : ∀ item ∈ items', proper item) {rest rest' : List Char}
    (same : (bracketed left right depth (items.map text)).toList ++ rest =
      (bracketed left right depth (items'.map text)).toList ++ rest') :
    items = items' ∧ rest = rest' := by
  cases items with
  | nil =>
    cases items' with
    | nil => exact ⟨rfl, List.append_cancel_left same⟩
    | cons item' items' =>
      simp [bracketed, closes, toList_newLine] at same
      exact absurd same.1 apart
  | cons item items =>
    cases items' with
    | nil =>
      simp [bracketed, closes, toList_newLine] at same
      exact absurd same.1.symm apart
    | cons item' items' =>
      have separator : ("," ++ newLine (depth + 1)).toList = ',' :: (newLine (depth + 1)).toList :=
        String.toList_append
      have ends : ∀ left : List Char, (newLine depth).toList ++ left =
          '\n' :: (List.replicate (2 * depth) ' ' ++ left) := fun left => by
        rw [toList_newLine, List.cons_append]
      simp only [bracketed, List.map_cons, List.isEmpty_cons, Bool.false_eq_true, if_false,
        String.toList_append, List.append_assoc, List.append_cancel_left_eq] at same
      rw [ends, ends] at same
      obtain ⟨items, left⟩ := ReadOff.intercalate separator (by decide) (.inl rfl) (.inr rfl)
        each every (List.cons_ne_nil _ _) (List.cons_ne_nil _ _) same
      exact ⟨items, List.append_cancel_left (List.append_cancel_left left)⟩

theorem indentedItems_eq (depth : ℕ) (items : List Json) :
    indentedItems showNumber depth items = items.map (indented showNumber (depth + 1)) := by
  induction items with
  | nil => rw [indentedItems, List.map_nil]
  | cons item items inductionHypothesis =>
    rw [indentedItems, inductionHypothesis, List.map_cons]

/-- The text of a member of an object. -/
def memberText (showNumber : Binary64 → String) (depth : ℕ) (member : String × Json) : String :=
  quote member.1 ++ ": " ++ indented showNumber depth member.2

theorem indentedMembers_eq (depth : ℕ) (members : List (String × Json)) :
    indentedMembers showNumber depth members =
      members.map (memberText showNumber (depth + 1)) := by
  induction members with
  | nil => rw [indentedMembers, List.map_nil]
  | cons member members inductionHypothesis =>
    rw [indentedMembers, inductionHypothesis, List.map_cons, memberText]

theorem finite_of_array {items : List Json} (finite : Finite (.array items)) :
    ∀ item ∈ items, Finite item := by
  rw [Finite, numbers] at finite
  induction items with
  | nil => simp
  | cons head tail inductionHypothesis =>
    rw [numbersAll, List.forall_mem_append] at finite
    exact List.forall_mem_cons.mpr ⟨finite.1, inductionHypothesis finite.2⟩

theorem finite_of_object {members : List (String × Json)} (finite : Finite (.object members)) :
    ∀ member ∈ members, Finite member.2 := by
  rw [Finite, numbers] at finite
  induction members with
  | nil => simp
  | cons head tail inductionHypothesis =>
    rw [numbersOf, List.forall_mem_append] at finite
    exact List.forall_mem_cons.mpr ⟨finite.1, inductionHypothesis finite.2⟩

theorem member_readOff {depth : ℕ} {member : String × Json}
    (value : IsReadOff showNumber depth member.2) :
    ReadOff (fun member => Finite member.2) (memberText showNumber depth) Follows member := by
  intro member' rest rest' finite' follow follow' same
  simp only [memberText, String.toList_append, List.append_assoc] at same
  obtain ⟨name, colon⟩ := quote_readOff same
  obtain ⟨same', left⟩ :=
    value member'.2 rest rest' finite' follow follow' (List.append_cancel_left colon)
  exact ⟨Prod.ext name same', left⟩

theorem array_isReadOff (faithful : Faithful showNumber) {depth : ℕ} {items : List Json}
    (finite : Finite (.array items))
    (each : ∀ item ∈ items, IsReadOff showNumber (depth + 1) item) :
    IsReadOff showNumber depth (.array items) := by
  intro value' rest rest' finite' _ _ same
  have kinds := outside_eq faithful finite finite' same
  cases value' with
  | array items' =>
    rw [indented, indented, indentedItems_eq, indentedItems_eq] at same
    obtain ⟨rfl, left⟩ := bracketed_readOff rfl (by decide) each (finite_of_array finite') same
    exact ⟨rfl, left⟩
  | _ => cases kinds

theorem object_isReadOff (faithful : Faithful showNumber) {depth : ℕ}
    {members : List (String × Json)} (finite : Finite (.object members))
    (each : ∀ member ∈ members, IsReadOff showNumber (depth + 1) member.2) :
    IsReadOff showNumber depth (.object members) := by
  intro value' rest rest' finite' _ _ same
  have kinds := outside_eq faithful finite finite' same
  cases value' with
  | object members' =>
    rw [indented, indented, indentedMembers_eq, indentedMembers_eq] at same
    obtain ⟨rfl, left⟩ := bracketed_readOff rfl (by decide)
      (fun member present => member_readOff (each member present)) (finite_of_object finite') same
    exact ⟨rfl, left⟩
  | _ => cases kinds

theorem string_isReadOff (faithful : Faithful showNumber) (depth : ℕ) (text : String) :
    IsReadOff showNumber depth (.string text) := by
  intro value' rest rest' finite' _ _ same
  have finite : Finite (.string text) := by simp [Finite]
  have kinds := outside_eq faithful finite finite' same
  cases value' with
  | string text' =>
    rw [indented, indented] at same
    obtain ⟨rfl, left⟩ := quote_readOff same
    exact ⟨rfl, left⟩
  | _ => cases kinds

theorem null_isReadOff (faithful : Faithful showNumber) (depth : ℕ) :
    IsReadOff showNumber depth .null := by
  intro value' rest rest' finite' _ _ same
  have finite : Finite .null := by simp [Finite]
  have kinds := outside_eq faithful finite finite' same
  cases value' with
  | null => exact ⟨rfl, List.append_cancel_left same⟩
  | _ => cases kinds

theorem bool_isReadOff (faithful : Faithful showNumber) (depth : ℕ) (value : Bool) :
    IsReadOff showNumber depth (.bool value) := by
  intro value' rest rest' finite' _ _ same
  have finite : Finite (.bool value) := by simp [Finite]
  have kinds := outside_eq faithful finite finite' same
  cases value' with
  | bool value' =>
    cases kinds
    exact ⟨rfl, List.append_cancel_left same⟩
  | _ => cases kinds

mutual

/-- Every value is read off by its indented text. -/
theorem isReadOff (faithful : Faithful showNumber) :
    (value : Json) → Finite value → ∀ depth, IsReadOff showNumber depth value
  | .null, _, depth => null_isReadOff faithful depth
  | .bool value, _, depth => bool_isReadOff faithful depth value
  | .nat _, finite, depth => numeral_isReadOff faithful depth finite rfl
  | .number _, finite, depth => numeral_isReadOff faithful depth finite rfl
  | .string text, _, depth => string_isReadOff faithful depth text
  | .array items, finite, depth =>
    array_isReadOff faithful finite
      (isReadOffAll faithful items (finite_of_array finite) (depth + 1))
  | .object members, finite, depth =>
    object_isReadOff faithful finite
      (isReadOffOf faithful members (finite_of_object finite) (depth + 1))

theorem isReadOffAll (faithful : Faithful showNumber) :
    (items : List Json) → (∀ item ∈ items, Finite item) →
      ∀ depth, ∀ item ∈ items, IsReadOff showNumber depth item
  | [], _, _ => fun _ member => absurd member List.not_mem_nil
  | head :: tail, finite, depth =>
    have finite := List.forall_mem_cons.mp finite
    List.forall_mem_cons.mpr
      ⟨isReadOff faithful head finite.1 depth, isReadOffAll faithful tail finite.2 depth⟩

theorem isReadOffOf (faithful : Faithful showNumber) :
    (members : List (String × Json)) → (∀ member ∈ members, Finite member.2) →
      ∀ depth, ∀ member ∈ members, IsReadOff showNumber depth member.2
  | [], _, _ => fun _ member => absurd member List.not_mem_nil
  | (_, value) :: tail, finite, depth =>
    have finite := List.forall_mem_cons.mp finite
    List.forall_mem_cons.mpr
      ⟨isReadOff faithful value finite.1 depth, isReadOffOf faithful tail finite.2 depth⟩

end

/-- Values of finite numbers with the same indented text are the same, whatever texts the numbers
have, if finite numbers can be read from these. -/
theorem prettyWith_inj (faithful : Faithful showNumber) {value value' : Json}
    (finite : Finite value) (finite' : Finite value')
    (same : value.prettyWith showNumber = value'.prettyWith showNumber) : value = value' := by
  have chars : (indented showNumber 0 value).toList ++ [] =
      (indented showNumber 0 value').toList ++ [] := by
    rw [← prettyWith, ← prettyWith, same]
  have ends : Follow Follows [] := fun char member => by simp at member
  exact (isReadOff faithful value finite 0 value' [] [] finite' ends ends chars).1

end Json

end ArrowCheck
