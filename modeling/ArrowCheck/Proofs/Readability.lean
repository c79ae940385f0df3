/-
This file describes texts that can be taken apart again. A value is read off a text
that starts with its own if no other value, and no other remainder, gives the same
text. What stands after a value has to be told from its continuation: after a number
another digit never can be. Lists of such values with a mark between them and
another one after them can be read off too, and types with them: the text of a type
determines it, however deep functions and arrays are nested.
-/

import Mathlib.Data.List.Basic
import ArrowCheck.Ty
import ArrowCheck.Proofs.Lexemes

namespace ArrowCheck

/-! ### Reading values off texts -/

/-- A run of members of a class is read off a list in which no member of the class follows. -/
theorem run_readOff {α : Type} {isMember : α → Bool} {run run' rest rest' : List α}
    (within : ∀ item ∈ run, isMember item) (within' : ∀ item ∈ run', isMember item)
    (outside : ∀ item ∈ rest.head?, isMember item = false)
    (outside' : ∀ item ∈ rest'.head?, isMember item = false) (same : run ++ rest = run' ++ rest') :
    run = run' ∧ rest = rest' := by
  obtain ⟨taken, dropped⟩ := Token.splitRun within outside
  obtain ⟨taken', dropped'⟩ := Token.splitRun within' outside'
  rw [same] at taken dropped
  exact ⟨taken.symm.trans taken', dropped.symm.trans dropped'⟩

section

variable {α : Type} (proper : α → Prop) (text : α → String) (follows : Char → Prop)

/-- What stands after a value is the end of the text or starts with a character that may follow. -/
def Follow (rest : List Char) : Prop :=
  ∀ char ∈ rest.head?, follows char

/-- A value is read off every text that starts with its own, among the proper values. -/
def ReadOff (item : α) : Prop :=
  ∀ item' rest rest', proper item' → Follow follows rest → Follow follows rest' →
    (text item).toList ++ rest = (text item').toList ++ rest' → item = item' ∧ rest = rest'

variable {proper text follows}

/-- Values with a mark between them are read off a text if each is, and if another mark closes the
list. -/
theorem ReadOff.intercalate {separator : String} {mark close : Char} {more : List Char}
    (starts : separator.toList = mark :: more) (apart : mark ≠ close) (between : follows mark)
    (after : follows close) {items items' : List α}
    (each : ∀ item ∈ items, ReadOff proper text follows item) (every : ∀ item ∈ items', proper item)
    (nonempty : items ≠ []) (nonempty' : items' ≠ []) {rest rest' : List Char}
    (same : (separator.intercalate (items.map text)).toList ++ close :: rest =
      (separator.intercalate (items'.map text)).toList ++ close :: rest') :
    items = items' ∧ rest = rest' := by
  have ends : ∀ left, Follow follows (close :: left) := fun left => by simpa [Follow] using after
  have goesOn : ∀ left, Follow follows (mark :: left) := fun left => by
    simpa [Follow] using between
  induction items generalizing items' with
  | nil => exact absurd rfl nonempty
  | cons item items inductionHypothesis =>
    obtain ⟨item', items', rfl⟩ := List.exists_cons_of_ne_nil nonempty'
    rw [List.forall_mem_cons] at each every
    cases items with
    | nil =>
      cases items' with
      | nil =>
        obtain ⟨rfl, left⟩ :=
          each.1 item' _ _ every.1 (ends rest) (ends rest') (by simpa using same)
        exact ⟨rfl, (List.cons.inj left).2⟩
      | cons second' items' =>
        have left := (each.1 item' _ _ every.1 (ends rest) (goesOn _) (by
          simpa [String.intercalate_cons_cons, starts] using same)).2
        exact absurd (List.cons.inj left).1.symm apart
    | cons second items =>
      cases items' with
      | nil =>
        have left := (each.1 item' _ _ every.1 (goesOn _) (ends rest') (by
          simpa [String.intercalate_cons_cons, starts] using same)).2
        exact absurd (List.cons.inj left).1 apart
      | cons second' items' =>
        obtain ⟨rfl, left⟩ := each.1 item' _ _ every.1 (goesOn _) (goesOn _) (by
          simpa [String.intercalate_cons_cons, starts] using same)
        obtain ⟨items, left⟩ := inductionHypothesis each.2 every.2 (List.cons_ne_nil _ _)
          (List.cons_ne_nil _ _) (by simpa [starts] using left)
        exact ⟨by rw [items], left⟩

end

namespace Ty

/-! ### Names of variables -/

/-- The letter that the name of a variable starts with. -/
def letter (id : VarId) : Char :=
  Char.ofNat ('a'.toNat + id % 26)

/-- The digits after the letter of a variable's name. -/
def suffix (id : VarId) : List Char :=
  if id / 26 = 0 then [] else Nat.toDigits 10 (id / 26)

theorem toList_varName (id : VarId) : (varName id).toList = letter id :: suffix id := by
  rw [varName, suffix]
  split_ifs <;> simp [letter]

theorem toNat_letter (id : VarId) : (letter id).toNat - 'a'.toNat = id % 26 := by
  have each : ∀ count < 26, (Char.ofNat ('a'.toNat + count)).toNat - 'a'.toNat = count := by decide
  exact each (id % 26) (Nat.mod_lt _ (by decide))

theorem isDigit_suffix (id : VarId) : ∀ char ∈ suffix id, char.isDigit = true := by
  rw [suffix]
  split_ifs
  · simp
  · exact fun char member => Nat.isDigit_of_mem_toDigits (by decide) (by decide) member

theorem div_of_suffix {id id' : VarId} (same : suffix id = suffix id') : id / 26 = id' / 26 := by
  rw [suffix, suffix] at same
  split_ifs at same with zero zero' zero'
  · rw [zero, zero']
  · exact absurd same.symm Nat.toDigits_ne_nil
  · exact absurd same Nat.toDigits_ne_nil
  · rw [← Nat.ofDigitChars_ten_toDigits (n := id / 26), same, Nat.ofDigitChars_ten_toDigits]

/-- Names of variables are read off where no digit follows. -/
theorem varName_readOff {id id' : VarId} {rest rest' : List Char}
    (outside : ∀ char ∈ rest.head?, char.isDigit = false)
    (outside' : ∀ char ∈ rest'.head?, char.isDigit = false)
    (same : (varName id).toList ++ rest = (varName id').toList ++ rest') :
    id = id' ∧ rest = rest' := by
  rw [toList_varName, toList_varName] at same
  obtain ⟨first, others⟩ := List.cons.inj same
  obtain ⟨digits, left⟩ :=
    run_readOff (isDigit_suffix id) (isDigit_suffix id') outside outside' others
  have quotient := div_of_suffix digits
  have remainder : id % 26 = id' % 26 := by
    rw [← toNat_letter, ← toNat_letter, first]
  refine ⟨?_, left⟩
  rw [← Nat.div_add_mod id 26, quotient, remainder, Nat.div_add_mod]

/-! ### First characters -/

/-- What a type is on the outside. -/
inductive Outside where
  | var
  | prim (primitive : Primitive)
  | fn
  | array
deriving DecidableEq

/-- What a type is on the outside. -/
def outside : Ty → Outside
  | .var _ => .var
  | .prim primitive => .prim primitive
  | .fn _ _ => .fn
  | .array _ => .array

/-- What a type is on the outside, as the first character of its text shows it. -/
def Outside.ofFirst (first : Char) : Outside :=
  if first = '(' then .fn
  else if first = 'A' then .array
  else if first = 'N' then .prim .number
  else if first = 'F' then .prim .float
  else if first = 'B' then .prim .bool
  else if first = 'S' then .prim .string
  else if first = 'V' then .prim .void
  else .var

theorem textAll_eq (types : List Ty) : textAll types = types.map text := by
  induction types with
  | nil => rfl
  | cons head tail inductionHypothesis => rw [textAll, inductionHypothesis, List.map_cons]

theorem toList_text_fn (params : List Ty) (result : Ty) :
    (text (.fn params result)).toList = '(' :: ((", ".intercalate (params.map text)).toList ++
      ')' :: ([' ', '-', '>', ' '] ++ (text result).toList)) := by
  simp [text, textAll_eq]

theorem toList_text_array (element : Ty) :
    (text (.array element)).toList =
      ['A', 'r', 'r', 'a', 'y', '<'] ++ ((text element).toList ++ ['>']) := by
  simp [text]

/-- The first character of a type shows what it is on the outside, and is never what closes a list
of parameters. -/
theorem text_first (ty : Ty) : ∃ first more, (text ty).toList = first :: more ∧
    Outside.ofFirst first = ty.outside ∧ first ≠ ')' := by
  cases ty with
  | var id =>
    have each : ∀ count < 26, Outside.ofFirst (Char.ofNat ('a'.toNat + count)) = .var ∧
        Char.ofNat ('a'.toNat + count) ≠ ')' := by decide
    exact ⟨letter id, suffix id, toList_varName id, each (id % 26) (Nat.mod_lt _ (by decide))⟩
  | prim primitive => cases primitive <;> exact ⟨_, _, rfl, by decide⟩
  | fn params result => exact ⟨_, _, toList_text_fn params result, rfl, by decide⟩
  | array element => exact ⟨_, _, toList_text_array element, rfl, by decide⟩

theorem outside_eq {ty ty' : Ty} {rest rest' : List Char}
    (same : (text ty).toList ++ rest = (text ty').toList ++ rest') : ty.outside = ty'.outside := by
  obtain ⟨first, more, starts, kind, -⟩ := text_first ty
  obtain ⟨first', more', starts', kind', -⟩ := text_first ty'
  rw [starts, starts'] at same
  rw [← kind, ← kind', (List.cons.inj same).1]

/-! ### Types -/

/-- What may stand after a type: the mark before another parameter, and what closes a list of
parameters or an array. -/
def Follows (char : Char) : Prop :=
  char = ',' ∨ char = ')' ∨ char = '>'

theorem Follows.isDigit {rest : List Char} (follow : Follow Follows rest) :
    ∀ char ∈ rest.head?, char.isDigit = false := by
  intro char member
  rcases follow char member with rfl | rfl | rfl <;> rfl

/-- A type is read off by its text. -/
abbrev IsReadOff : Ty → Prop :=
  ReadOff (fun _ => True) text Follows

theorem var_isReadOff (id : VarId) : IsReadOff (.var id) := by
  intro ty' rest rest' _ follow follow' same
  have kinds := outside_eq same
  cases ty' with
  | var id' =>
    obtain ⟨rfl, left⟩ := varName_readOff (Follows.isDigit follow) (Follows.isDigit follow') same
    exact ⟨rfl, left⟩
  | _ => cases kinds

theorem prim_isReadOff (primitive : Primitive) : IsReadOff (.prim primitive) := by
  intro ty' rest rest' _ _ _ same
  have kinds := outside_eq same
  cases ty' with
  | prim primitive' =>
    cases kinds
    exact ⟨rfl, List.append_cancel_left same⟩
  | _ => cases kinds

/-- Lists of types are read off up to what closes them. -/
theorem params_readOff {params params' : List Ty} (each : ∀ ty ∈ params, IsReadOff ty)
    {rest rest' : List Char}
    (same : (", ".intercalate (params.map text)).toList ++ ')' :: rest =
      (", ".intercalate (params'.map text)).toList ++ ')' :: rest') :
    params = params' ∧ rest = rest' := by
  -- An empty list shows its end first, where any other list shows a type.
  have differ (ty : Ty) (types : List Ty) (left left' : List Char) :
      (", ".intercalate ((ty :: types).map text)).toList ++ left ≠ ')' :: left' := by
    obtain ⟨first, more, starts, -, apart⟩ := text_first ty
    intro same
    cases types <;> simp_all [String.intercalate_cons_cons]
  cases params with
  | nil =>
    cases params' with
    | nil => exact ⟨rfl, by simpa using same⟩
    | cons ty' params' => exact absurd same.symm (differ ty' params' _ _)
  | cons ty params =>
    cases params' with
    | nil => exact absurd same (differ ty params _ _)
    | cons ty' params' =>
      exact ReadOff.intercalate rfl (by decide) (.inl rfl) (.inr (.inl rfl)) each
        (fun _ _ => trivial) (List.cons_ne_nil _ _) (List.cons_ne_nil _ _) same

theorem fn_isReadOff {params : List Ty} {result : Ty} (each : ∀ ty ∈ params, IsReadOff ty)
    (last : IsReadOff result) : IsReadOff (.fn params result) := by
  intro ty' rest rest' _ follow follow' same
  have kinds := outside_eq same
  cases ty' with
  | fn params' result' =>
    rw [toList_text_fn, toList_text_fn] at same
    obtain ⟨rfl, arrows⟩ := params_readOff each (by simpa using same)
    obtain ⟨rfl, left⟩ := last result' rest rest' trivial follow follow' (by simpa using arrows)
    exact ⟨rfl, left⟩
  | _ => cases kinds

theorem array_isReadOff {element : Ty} (part : IsReadOff element) :
    IsReadOff (.array element) := by
  intro ty' rest rest' _ _ _ same
  have kinds := outside_eq same
  cases ty' with
  | array element' =>
    rw [toList_text_array, toList_text_array] at same
    have ends : ∀ left, Follow Follows ('>' :: left) := fun left => by simp [Follow, Follows]
    obtain ⟨rfl, left⟩ := part element' ('>' :: rest) ('>' :: rest') trivial (ends rest)
      (ends rest') (by simpa using same)
    exact ⟨rfl, (List.cons.inj left).2⟩
  | _ => cases kinds

mutual

/-- Every type is read off by its text. -/
theorem isReadOff : (ty : Ty) → IsReadOff ty
  | .var id => var_isReadOff id
  | .prim primitive => prim_isReadOff primitive
  | .fn params result => fn_isReadOff (isReadOffAll params) (isReadOff result)
  | .array element => array_isReadOff (isReadOff element)

theorem isReadOffAll : (types : List Ty) → ∀ ty ∈ types, IsReadOff ty
  | [] => fun _ member => absurd member List.not_mem_nil
  | head :: tail => List.forall_mem_cons.mpr ⟨isReadOff head, isReadOffAll tail⟩

end

/-- Types with the same text are the same. -/
theorem text_injective : Function.Injective text := by
  intro ty ty' same
  have chars : ty.text.toList ++ [] = ty'.text.toList ++ [] := by rw [same]
  have ends : Follow Follows [] := fun char member => by simp at member
  exact (isReadOff ty ty' [] [] trivial ends ends chars).1

/-- Types are told apart by their texts. In particular variables are told apart by their names, and
no variable has the name of a primitive type. -/
theorem text_unambiguous (ty ty' : Ty) (id id' : VarId) (primitive : Primitive) :
    (ty.text = ty'.text ↔ ty = ty') ∧ (varName id = varName id' ↔ id = id') ∧
      varName id ≠ primitive.name := by
  have names : ∀ id, varName id = text (.var id) := fun _ => rfl
  have primitives : primitive.name = text (.prim primitive) := rfl
  refine ⟨text_injective.eq_iff, ?_, ?_⟩
  · rw [names, names, text_injective.eq_iff, Ty.var.injEq]
  · rw [names, primitives, Ne, text_injective.eq_iff]
    intro same
    cases same

end Ty

end ArrowCheck
