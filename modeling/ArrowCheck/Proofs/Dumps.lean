/-
This file shows that the dump of a program loses nothing. Nodes are told apart by
the name of their kind, statements and bodies by what cannot stand in the place of
an expression, and members that are left out by the name of the member that comes
next. Places are kept as two counts, types as their texts. So programs of finite
numbers with the same dump are the same, with their places, their written types
and the types that inference found.
-/

import ArrowCheck.Check.Run
import ArrowCheck.Tree.Json
import ArrowCheck.Proofs.JsonTexts

namespace ArrowCheck

/-! ### Members that may be left out -/

section

variable {α : Type} {name : String} {encode : α → Json}

/-- A member that is left out when there is no value. -/
def optionalMember (name : String) (encode : α → Json) : Option α → List (String × Json)
  | some value => [(name, encode value)]
  | none => []

/-- A member that may be left out is told by its name from the member that comes next. -/
theorem optionalMember_inj {value value' : Option α}
    (each : ∀ item ∈ value, ∀ item', encode item = encode item' → item = item')
    {rest rest' : List (String × Json)} (apart : ∀ member ∈ rest.head?, member.1 ≠ name)
    (apart' : ∀ member ∈ rest'.head?, member.1 ≠ name)
    (same : optionalMember name encode value ++ rest = optionalMember name encode value' ++ rest') :
    value = value' ∧ rest = rest' := by
  cases value with
  | none =>
    cases value' with
    | none => exact ⟨rfl, same⟩
    | some item' =>
      obtain rfl : rest = (name, encode item') :: rest' := same
      exact absurd rfl (apart _ rfl)
  | some item =>
    cases value' with
    | none =>
      obtain rfl : (name, encode item) :: rest = rest' := same
      exact absurd rfl (apart' _ rfl)
    | some item' =>
      obtain ⟨first, left⟩ := List.cons.inj same
      exact ⟨congrArg some (each item rfl item' (Prod.mk.inj first).2), left⟩

end

/-- Lists with the same images are the same if each member is determined by its image. -/
theorem map_inj_of_forall {α β : Type} {encode : α → β} {items items' : List α}
    (each : ∀ item ∈ items, ∀ item', encode item = encode item' → item = item')
    (same : items.map encode = items'.map encode) : items = items' := by
  induction items generalizing items' with
  | nil => rw [List.map_eq_nil_iff.mp same.symm]
  | cons item items inductionHypothesis =>
    obtain ⟨item', tail', rfl, first, others⟩ := List.map_eq_cons_iff.mp same.symm
    rw [List.forall_mem_cons] at each
    rw [each.1 item' first.symm, inductionHypothesis each.2 others.symm]

/-! ### Places, types and written types -/

theorem Span.toJson_inj {span span' : Span} (same : span.toJson = span'.toJson) : span = span' := by
  have members := Json.object.inj same
  simp only [List.cons.injEq, Prod.mk.injEq, Json.nat.injEq, true_and, and_true] at members
  exact congrArg₂ Span.mk (UInt32.toNat_inj.mp members.1) (UInt32.toNat_inj.mp members.2)

theorem Span.members_eq (span : Option Span) :
    members span = optionalMember "span" toJson span := by
  cases span <;> rfl

theorem Span.members_injective : Function.Injective members := by
  intro span span' same
  rw [members_eq, members_eq, ← List.append_left_inj []] at same
  exact (optionalMember_inj (fun _ _ _ => toJson_inj) (by simp) (by simp) same).1

theorem Info.members_eq (info : Info) : info.members =
    optionalMember "span" Span.toJson info.span ++
      optionalMember "inferredType" (fun ty => .string ty.text) info.ty := by
  rw [members, Span.members_eq]
  cases info.ty <;> rfl

/-- The members for place and type are told from any other member. -/
theorem Info.head_members {name : String} (place : name ≠ "span") (type : name ≠ "inferredType")
    (info : Info) : ∀ member ∈ info.members.head?, member.1 ≠ name := by
  rw [members_eq]
  cases info.span <;> cases info.ty <;> simp [optionalMember, place.symm, type.symm]

theorem Info.members_injective : Function.Injective members := by
  rintro ⟨span, ty⟩ ⟨span', ty'⟩ same
  have types : ∀ ty : Option Ty, ∀ member ∈ (optionalMember "inferredType"
      (fun ty : Ty => Json.string ty.text) ty ++ []).head?, member.1 ≠ "span" := by
    intro ty
    cases ty <;> simp [optionalMember]
  rw [members_eq, members_eq, ← List.append_left_inj [], List.append_assoc, List.append_assoc]
    at same
  obtain ⟨rfl, same⟩ :=
    optionalMember_inj (fun _ _ _ => Span.toJson_inj) (types _) (types _) same
  obtain ⟨rfl, -⟩ := optionalMember_inj
    (fun _ _ _ texts => Ty.text_injective (Json.string.inj texts)) (by simp) (by simp) same
  rfl

/-- The parts of a node are told from its place and type where their number is known. -/
theorem Info.node_inj {parts parts' : List (String × Json)} {info info' : Info}
    (same : Json.object (parts ++ info.members) = Json.object (parts' ++ info'.members))
    (count : parts.length = parts'.length) :
    parts = parts' ∧ info = info' := by
  obtain ⟨parts, members⟩ := List.append_inj (Json.object.inj same) count
  exact ⟨parts, members_injective members⟩

/-- The parts of a written type are told from its place where their number is known. -/
theorem Span.node_inj {parts parts' : List (String × Json)} {span span' : Option Span}
    (same : Json.object (parts ++ members span) = Json.object (parts' ++ members span'))
    (count : parts.length = parts'.length) :
    parts = parts' ∧ span = span' := by
  obtain ⟨parts, members⟩ := List.append_inj (Json.object.inj same) count
  exact ⟨parts, members_injective members⟩

theorem WrittenType.toJsonAll_eq (types : List WrittenType) :
    toJsonAll types = types.map toJson := by
  induction types with
  | nil => rfl
  | cons head tail inductionHypothesis => rw [toJsonAll, inductionHypothesis, List.map_cons]

mutual

theorem WrittenType.toJson_inj : (written written' : WrittenType) →
    written.toJson = written'.toJson → written = written'
  | .named name span, written', same => by
    cases written' with
    | named name' span' =>
      obtain ⟨parts, rfl⟩ := Span.node_inj same rfl
      cases parts
      rfl
    | _ => simp [toJson] at same
  | .array element span, written', same => by
    cases written' with
    | array element' span' =>
      obtain ⟨parts, rfl⟩ := Span.node_inj same rfl
      simp only [List.cons.injEq, Prod.mk.injEq, true_and, and_true] at parts
      rw [toJson_inj element element' parts]
    | _ => simp [toJson] at same
  | .function params result span, written', same => by
    cases written' with
    | function params' result' span' =>
      obtain ⟨parts, rfl⟩ := Span.node_inj same rfl
      simp only [List.cons.injEq, Prod.mk.injEq, true_and, and_true, Json.array.injEq] at parts
      rw [toJsonAll_eq, toJsonAll_eq] at parts
      rw [map_inj_of_forall (toJsonAll_inj params) parts.1, toJson_inj result result' parts.2]
    | _ => simp [toJson] at same

theorem WrittenType.toJsonAll_inj : (types : List WrittenType) →
    ∀ written ∈ types, ∀ written', toJson written = toJson written' → written = written'
  | [] => fun _ member => absurd member List.not_mem_nil
  | head :: tail => List.forall_mem_cons.mpr ⟨toJson_inj head, toJsonAll_inj tail⟩

end

theorem WrittenType.members_inj {name : String} {written written' : Option WrittenType}
    {rest rest' : List (String × Json)} (apart : ∀ member ∈ rest.head?, member.1 ≠ name)
    (apart' : ∀ member ∈ rest'.head?, member.1 ≠ name)
    (same : members name written ++ rest = members name written' ++ rest') :
    written = written' ∧ rest = rest' := by
  have optional : ∀ written, members name written = optionalMember name toJson written := by
    intro written
    cases written <;> rfl
  rw [optional, optional] at same
  exact optionalMember_inj (fun item _ item' => toJson_inj item item') apart apart' same

theorem Param.toJson_injective : Function.Injective Param.toJson := by
  rintro ⟨name, declared, info⟩ ⟨name', declared', info'⟩ same
  have members := Json.object.inj same
  simp only [List.cons_append, List.nil_append, List.cons.injEq, Prod.mk.injEq, true_and,
    Json.string.injEq] at members
  have apart : ∀ info : Info, ∀ member ∈ info.members.head?, member.1 ≠ "annotation" :=
    Info.head_members (by decide) (by decide)
  obtain ⟨written, infos⟩ := WrittenType.members_inj (apart _) (apart _) members.2
  rw [members.1, written, Info.members_injective infos]

/-! ### Kinds -/

theorem Stmt.toJson_kind (stmt : Stmt) :
    ∃ members, stmt.toJson = .object (("type", .string stmt.kind) :: members) := by
  cases stmt with
  | const name declared init info => exact ⟨_, rfl⟩
  | «return» argument info => cases argument <;> exact ⟨_, rfl⟩
  | expr value => cases value <;> exact ⟨_, rfl⟩

theorem Stmt.kind_eq {stmt stmt' : Stmt} (same : stmt.toJson = stmt'.toJson) :
    stmt.kind = stmt'.kind := by
  obtain ⟨members, eq⟩ := stmt.toJson_kind
  obtain ⟨members', eq'⟩ := stmt'.toJson_kind
  rw [eq, eq'] at same
  exact Json.string.inj (Prod.mk.inj (List.cons.inj (Json.object.inj same)).1).2

/-- Expressions with the same dump are of the same kind. -/
theorem Expr.kind_eq {expr expr' : Expr} (same : expr.toJson = expr'.toJson) :
    expr.kind = expr'.kind :=
  @Stmt.kind_eq (.expr expr) (.expr expr') same

/-- No expression is taken for a declaration or a return. -/
theorem Expr.kind_ne (expr : Expr) :
    expr.kind ≠ "ConstDeclaration" ∧ expr.kind ≠ "ReturnStatement" := by
  cases expr <;> exact ⟨by simp [kind], by simp [kind]⟩

theorem Operator.text_injective : Function.Injective text := by
  intro operator operator' same
  have read : ∀ operator : Operator, ofText? operator.text = some operator := by
    intro operator
    cases operator <;> decide
  apply Option.some.inj
  rw [← read operator, same, read operator']

/-! ### Nodes -/

/-- An expression is determined by its dump. -/
def Expr.Determined (expr : Expr) : Prop :=
  ∀ expr' : Expr, expr.toJson = expr'.toJson → expr = expr'

/-- The body of a function is determined by its dump. -/
def Body.Determined (body : Body) : Prop :=
  ∀ body' : Body, body.toJson = body'.toJson → body = body'

/-- A statement is determined by its dump. -/
def Stmt.Determined (stmt : Stmt) : Prop :=
  ∀ stmt' : Stmt, stmt.toJson = stmt'.toJson → stmt = stmt'

theorem Expr.toJsonAll_eq (exprs : List Expr) : toJsonAll exprs = exprs.map toJson := by
  induction exprs with
  | nil => rfl
  | cons head tail inductionHypothesis => rw [toJsonAll, inductionHypothesis, List.map_cons]

theorem Stmt.toJsonAll_eq (stmts : List Stmt) : toJsonAll stmts = stmts.map toJson := by
  induction stmts with
  | nil => rfl
  | cons head tail inductionHypothesis => rw [toJsonAll, inductionHypothesis, List.map_cons]

namespace Expr

variable (info : Info)

theorem number_determined (value : Binary64) : Determined (.number value info) := by
  intro expr' same
  have kinds := kind_eq same
  cases expr' with
  | number value' info' =>
    obtain ⟨parts, rfl⟩ := Info.node_inj same rfl
    cases parts
    rfl
  | _ => simp [kind] at kinds

theorem string_determined (value : String) : Determined (.string value info) := by
  intro expr' same
  have kinds := kind_eq same
  cases expr' with
  | string value' info' =>
    obtain ⟨parts, rfl⟩ := Info.node_inj same rfl
    cases parts
    rfl
  | _ => simp [kind] at kinds

theorem bool_determined (value : Bool) : Determined (.bool value info) := by
  intro expr' same
  have kinds := kind_eq same
  cases expr' with
  | bool value' info' =>
    obtain ⟨parts, rfl⟩ := Info.node_inj same rfl
    cases parts
    rfl
  | _ => simp [kind] at kinds

theorem ident_determined (name : String) : Determined (.ident name info) := by
  intro expr' same
  have kinds := kind_eq same
  cases expr' with
  | ident name' info' =>
    obtain ⟨parts, rfl⟩ := Info.node_inj same rfl
    cases parts
    rfl
  | _ => simp [kind] at kinds

theorem binary_determined (operator : Operator) {left right : Expr} (first : Determined left)
    (second : Determined right) : Determined (.binary operator left right info) := by
  intro expr' same
  have kinds := kind_eq same
  cases expr' with
  | binary operator' left' right' info' =>
    obtain ⟨parts, rfl⟩ := Info.node_inj same rfl
    simp only [List.cons.injEq, Prod.mk.injEq, true_and, and_true, Json.string.injEq] at parts
    obtain ⟨operators, lefts, rights⟩ := parts
    rw [Operator.text_injective operators, first left' lefts, second right' rights]
  | _ => simp [kind] at kinds

theorem conditional_determined {test consequent alternate : Expr} (first : Determined test)
    (second : Determined consequent) (third : Determined alternate) :
    Determined (.conditional test consequent alternate info) := by
  intro expr' same
  have kinds := kind_eq same
  cases expr' with
  | conditional test' consequent' alternate' info' =>
    obtain ⟨parts, rfl⟩ := Info.node_inj same rfl
    simp only [List.cons.injEq, Prod.mk.injEq, true_and, and_true] at parts
    obtain ⟨tests, consequents, alternates⟩ := parts
    rw [first test' tests, second consequent' consequents, third alternate' alternates]
  | _ => simp [kind] at kinds

/-- A result type that is left out is told from one that is written by the body after it. -/
theorem arrow_determined (params : List Param) (result : Option WrittenType) {body : Body}
    (inner : body.Determined) : Determined (.arrow params result body info) := by
  intro expr' same
  have kinds := kind_eq same
  cases expr' with
  | arrow params' result' body' info' =>
    have members := Json.object.inj same
    simp only [List.cons_append, List.nil_append, List.append_assoc, List.cons.injEq,
      Prod.mk.injEq, true_and, Json.array.injEq] at members
    obtain ⟨rfl, others⟩ := WrittenType.members_inj (by simp) (by simp) members.2
    simp only [List.cons.injEq, Prod.mk.injEq, true_and] at others
    rw [Param.toJson_injective.list_map members.1, inner body' others.1,
      Info.members_injective others.2]
  | _ => simp [kind] at kinds

theorem call_determined {callee : Expr} {arguments : List Expr} (first : Determined callee)
    (others : ∀ argument ∈ arguments, Determined argument) :
    Determined (.call callee arguments info) := by
  intro expr' same
  have kinds := kind_eq same
  cases expr' with
  | call callee' arguments' info' =>
    obtain ⟨parts, rfl⟩ := Info.node_inj same rfl
    simp only [List.cons.injEq, Prod.mk.injEq, true_and, and_true, Json.array.injEq] at parts
    rw [toJsonAll_eq, toJsonAll_eq] at parts
    rw [first callee' parts.1, map_inj_of_forall others parts.2]
  | _ => simp [kind] at kinds

theorem array_determined {elements : List Expr} (each : ∀ element ∈ elements, Determined element) :
    Determined (.array elements info) := by
  intro expr' same
  have kinds := kind_eq same
  cases expr' with
  | array elements' info' =>
    obtain ⟨parts, rfl⟩ := Info.node_inj same rfl
    simp only [List.cons.injEq, Prod.mk.injEq, true_and, and_true, Json.array.injEq] at parts
    rw [toJsonAll_eq, toJsonAll_eq] at parts
    rw [map_inj_of_forall each parts]
  | _ => simp [kind] at kinds

theorem index_determined {object position : Expr} (first : Determined object)
    (second : Determined position) : Determined (.index object position info) := by
  intro expr' same
  have kinds := kind_eq same
  cases expr' with
  | index object' position' info' =>
    obtain ⟨parts, rfl⟩ := Info.node_inj same rfl
    simp only [List.cons.injEq, Prod.mk.injEq, true_and, and_true] at parts
    rw [first object' parts.1, second position' parts.2]
  | _ => simp [kind] at kinds

end Expr

/-- A value is dumped as an object, and a block as an array. -/
theorem Expr.toJson_ne_array (expr : Expr) (items : List Json) : expr.toJson ≠ .array items := by
  cases expr <;> simp [toJson]

theorem Body.value_determined {value : Expr} (inner : value.Determined) :
    Body.Determined (.value value) := by
  intro body' same
  cases body' with
  | value value' => rw [inner value' same]
  | block statements' => exact absurd same (value.toJson_ne_array _)

theorem Body.block_determined {statements : List Stmt}
    (inner : ∀ stmt ∈ statements, Stmt.Determined stmt) : Body.Determined (.block statements) := by
  intro body' same
  cases body' with
  | value value' => exact absurd same.symm (value'.toJson_ne_array _)
  | block statements' =>
    have items := Json.array.inj same
    rw [Stmt.toJsonAll_eq, Stmt.toJsonAll_eq] at items
    rw [map_inj_of_forall inner items]

namespace Stmt

variable (info : Info)

theorem const_determined (name : String) (declared : Option WrittenType) {init : Expr}
    (inner : init.Determined) : Determined (.const name declared init info) := by
  intro stmt' same
  have kinds := kind_eq same
  cases stmt' with
  | const name' declared' init' info' =>
    have members := Json.object.inj same
    simp only [List.cons_append, List.nil_append, List.append_assoc, List.cons.injEq,
      Prod.mk.injEq, true_and, Json.string.injEq] at members
    obtain ⟨rfl, others⟩ := WrittenType.members_inj (by simp) (by simp) members.2
    simp only [List.cons.injEq, Prod.mk.injEq, true_and] at others
    rw [members.1, inner init' others.1, Info.members_injective others.2]
  | «return» argument' info' => simp [kind] at kinds
  | expr value' => exact absurd kinds.symm value'.kind_ne.1

theorem return_determined {argument : Option Expr} (inner : ∀ value ∈ argument, value.Determined) :
    Determined (.return argument info) := by
  intro stmt' same
  have kinds := kind_eq same
  cases stmt' with
  | const name' declared' init' info' => simp [kind] at kinds
  | «return» argument' info' =>
    have optional : ∀ (argument : Option Expr) (info : Info), (Stmt.return argument info).toJson =
        .object (("type", .string "ReturnStatement") ::
          (optionalMember "argument" Expr.toJson argument ++ info.members)) := by
      intro argument info
      cases argument <;> rfl
    have apart : ∀ info : Info, ∀ member ∈ info.members.head?, member.1 ≠ "argument" :=
      Info.head_members (by decide) (by decide)
    rw [optional, optional] at same
    obtain ⟨rfl, infos⟩ :=
      optionalMember_inj inner (apart _) (apart _) (List.cons.inj (Json.object.inj same)).2
    rw [Info.members_injective infos]
  | expr value' => exact absurd kinds.symm value'.kind_ne.2

theorem expr_determined {value : Expr} (inner : value.Determined) : Determined (.expr value) := by
  intro stmt' same
  have kinds := kind_eq same
  cases stmt' with
  | const name' declared' init' info' => exact absurd kinds value.kind_ne.1
  | «return» argument' info' => exact absurd kinds value.kind_ne.2
  | expr value' => rw [inner value' same]

end Stmt

mutual

/-- Every expression is determined by its dump. -/
theorem Expr.determined : (expr : Expr) → expr.Determined
  | .number value info => Expr.number_determined info value
  | .string value info => Expr.string_determined info value
  | .bool value info => Expr.bool_determined info value
  | .ident name info => Expr.ident_determined info name
  | .binary operator left right info =>
    Expr.binary_determined info operator (Expr.determined left) (Expr.determined right)
  | .conditional test consequent alternate info =>
    Expr.conditional_determined info (Expr.determined test) (Expr.determined consequent)
      (Expr.determined alternate)
  | .arrow params result body info =>
    Expr.arrow_determined info params result (Body.determined body)
  | .call callee arguments info =>
    Expr.call_determined info (Expr.determined callee) (Expr.allDetermined arguments)
  | .array elements info => Expr.array_determined info (Expr.allDetermined elements)
  | .index object position info =>
    Expr.index_determined info (Expr.determined object) (Expr.determined position)

theorem Expr.allDetermined : (exprs : List Expr) → ∀ expr ∈ exprs, expr.Determined
  | [] => fun _ member => absurd member List.not_mem_nil
  | head :: tail => List.forall_mem_cons.mpr ⟨Expr.determined head, Expr.allDetermined tail⟩

theorem Body.determined : (body : Body) → body.Determined
  | .value value => Body.value_determined (Expr.determined value)
  | .block statements => Body.block_determined (Stmt.allDetermined statements)

theorem Stmt.determined : (stmt : Stmt) → stmt.Determined
  | .const name declared init info =>
    Stmt.const_determined info name declared (Expr.determined init)
  | .return none info => Stmt.return_determined info (by simp)
  | .return (some argument) info => Stmt.return_determined info (by
      simpa using Expr.determined argument)
  | .expr value => Stmt.expr_determined (Expr.determined value)

theorem Stmt.allDetermined : (stmts : List Stmt) → ∀ stmt ∈ stmts, stmt.Determined
  | [] => fun _ member => absurd member List.not_mem_nil
  | head :: tail => List.forall_mem_cons.mpr ⟨Stmt.determined head, Stmt.allDetermined tail⟩

end

theorem Program.toJson_injective : Function.Injective Program.toJson := by
  rintro ⟨body, info⟩ ⟨body', info'⟩ same
  obtain ⟨parts, infos⟩ := Info.node_inj same rfl
  simp only [List.cons.injEq, Prod.mk.injEq, true_and, and_true, Json.array.injEq,
    Stmt.toJsonAll_eq] at parts
  exact congrArg₂ Program.mk (map_inj_of_forall (Stmt.allDetermined body) parts) infos

/-! ### Numbers -/

mutual

/-- The numeric literals of an expression from left to right. -/
def Expr.numbers : Expr → List Binary64
  | .number value _ => [value]
  | .string _ _ | .bool _ _ | .ident _ _ => []
  | .binary _ left right _ => left.numbers ++ right.numbers
  | .conditional test consequent alternate _ =>
    test.numbers ++ consequent.numbers ++ alternate.numbers
  | .arrow _ _ body _ => body.numbers
  | .call callee arguments _ => callee.numbers ++ Expr.numbersAll arguments
  | .array elements _ => Expr.numbersAll elements
  | .index object position _ => object.numbers ++ position.numbers

/-- The numeric literals of expressions. -/
def Expr.numbersAll : List Expr → List Binary64
  | [] => []
  | head :: tail => head.numbers ++ Expr.numbersAll tail

/-- The numeric literals of the body of a function. -/
def Body.numbers : Body → List Binary64
  | .value value => value.numbers
  | .block statements => Stmt.numbersAll statements

/-- The numeric literals of a statement. -/
def Stmt.numbers : Stmt → List Binary64
  | .const _ _ init _ => init.numbers
  | .return (some argument) _ => argument.numbers
  | .return none _ => []
  | .expr value => value.numbers

/-- The numeric literals of statements. -/
def Stmt.numbersAll : List Stmt → List Binary64
  | [] => []
  | head :: tail => head.numbers ++ Stmt.numbersAll tail

end

/-- The numeric literals of a program. -/
def Program.numbers (program : Program) : List Binary64 :=
  Stmt.numbersAll program.body

@[simp]
theorem Json.numbersOf_append (first second : List (String × Json)) :
    numbersOf (first ++ second) = numbersOf first ++ numbersOf second := by
  induction first with
  | nil => rfl
  | cons member rest inductionHypothesis => simp [inductionHypothesis]

theorem numbersOf_optionalMember {α : Type} {encode : α → Json} (name : String)
    (counts : ∀ value, (encode value).numbers = []) (value : Option α) :
    Json.numbersOf (optionalMember name encode value) = [] := by
  cases value <;> simp [optionalMember, counts]

@[simp]
theorem Span.numbersOf_members (span : Option Span) : Json.numbersOf (members span) = [] := by
  rw [members_eq]
  exact numbersOf_optionalMember _ (fun _ => rfl) span

@[simp]
theorem Info.numbersOf_members (info : Info) : Json.numbersOf info.members = [] := by
  rw [members, Json.numbersOf_append, Span.numbersOf_members]
  cases info.ty <;> simp

mutual

theorem WrittenType.numbers_toJson : (written : WrittenType) → written.toJson.numbers = []
  | .named name span => by simp [toJson]
  | .array element span => by simp [toJson, numbers_toJson element]
  | .function params result span => by
    simp [toJson, numbers_toJsonAll params, numbers_toJson result]

theorem WrittenType.numbers_toJsonAll : (types : List WrittenType) →
    Json.numbersAll (toJsonAll types) = []
  | [] => rfl
  | head :: tail => by simp [toJsonAll, numbers_toJson head, numbers_toJsonAll tail]

end

@[simp]
theorem WrittenType.numbersOf_members (name : String) (written : Option WrittenType) :
    Json.numbersOf (members name written) = [] := by
  cases written <;> simp [members, numbers_toJson]

theorem Param.numbersAll_map_toJson (params : List Param) :
    Json.numbersAll (params.map Param.toJson) = [] := by
  induction params with
  | nil => rfl
  | cons param params inductionHypothesis => simp [toJson, inductionHypothesis]

mutual

/-- The numbers in the dump of an expression are its numeric literals. -/
theorem Expr.numbers_toJson : (expr : Expr) → expr.toJson.numbers = expr.numbers
  | .number value info => by simp [Expr.toJson, Expr.numbers]
  | .string value info => by simp [Expr.toJson, Expr.numbers]
  | .bool value info => by simp [Expr.toJson, Expr.numbers]
  | .ident name info => by simp [Expr.toJson, Expr.numbers]
  | .binary operator left right info => by
    simp [Expr.toJson, Expr.numbers, Expr.numbers_toJson left, Expr.numbers_toJson right]
  | .conditional test consequent alternate info => by
    simp [Expr.toJson, Expr.numbers, Expr.numbers_toJson test, Expr.numbers_toJson consequent,
      Expr.numbers_toJson alternate]
  | .arrow params result body info => by
    simp [Expr.toJson, Expr.numbers, Param.numbersAll_map_toJson, Body.numbers_toJson body]
  | .call callee arguments info => by
    simp [Expr.toJson, Expr.numbers, Expr.numbers_toJson callee, Expr.numbers_toJsonAll arguments]
  | .array elements info => by
    simp [Expr.toJson, Expr.numbers, Expr.numbers_toJsonAll elements]
  | .index object position info => by
    simp [Expr.toJson, Expr.numbers, Expr.numbers_toJson object, Expr.numbers_toJson position]

theorem Expr.numbers_toJsonAll : (exprs : List Expr) →
    Json.numbersAll (Expr.toJsonAll exprs) = Expr.numbersAll exprs
  | [] => rfl
  | head :: tail => by
    simp [Expr.toJsonAll, Expr.numbersAll, Expr.numbers_toJson head, Expr.numbers_toJsonAll tail]

theorem Body.numbers_toJson : (body : Body) → body.toJson.numbers = body.numbers
  | .value value => by simp [Body.toJson, Body.numbers, Expr.numbers_toJson value]
  | .block statements => by simp [Body.toJson, Body.numbers, Stmt.numbers_toJsonAll statements]

theorem Stmt.numbers_toJson : (stmt : Stmt) → stmt.toJson.numbers = stmt.numbers
  | .const name declared init info => by
    simp [Stmt.toJson, Stmt.numbers, Expr.numbers_toJson init]
  | .return none info => by simp [Stmt.toJson, Stmt.numbers]
  | .return (some argument) info => by
    simp [Stmt.toJson, Stmt.numbers, Expr.numbers_toJson argument]
  | .expr value => by simp [Stmt.toJson, Stmt.numbers, Expr.numbers_toJson value]

theorem Stmt.numbers_toJsonAll : (stmts : List Stmt) →
    Json.numbersAll (Stmt.toJsonAll stmts) = Stmt.numbersAll stmts
  | [] => rfl
  | head :: tail => by
    simp [Stmt.toJsonAll, Stmt.numbersAll, Stmt.numbers_toJson head, Stmt.numbers_toJsonAll tail]

end

theorem Program.numbers_toJson (program : Program) :
    program.toJson.numbers = program.numbers := by
  simp [toJson, numbers, Stmt.numbers_toJsonAll]

/-! ### Programs -/

/-- The dump of a program loses nothing: programs with the same dump are the same, with their
places, their written types and the types found for them, if their numbers are finite. It does not
matter which texts the numbers have, as long as finite numbers can be read from these. -/
theorem Program.eq_of_dump_eq (program program' : Program)
    (finite : ∀ number ∈ program.numbers, number.isFinite = true)
    (finite' : ∀ number ∈ program'.numbers, number.isFinite = true) :
    (∀ showNumber, Json.Faithful showNumber →
      program.toJson.prettyWith showNumber = program'.toJson.prettyWith showNumber →
      program = program') ∧
    (program.toJson.pretty = program'.toJson.pretty → program = program') := by
  rw [← Program.numbers_toJson] at finite finite'
  have lossless (showNumber : Binary64 → String) (faithful : Json.Faithful showNumber)
      (same : program.toJson.prettyWith showNumber = program'.toJson.prettyWith showNumber) :
      program = program' :=
    Program.toJson_injective (Json.prettyWith_inj faithful finite finite' same)
  exact ⟨lossless, lossless Json.numberText Json.faithful_numberText⟩

/-- A function with a written type whose value is a half. -/
def halfOf (numeral : String) : SourceFile :=
  ⟨"f.tern", "(x: number) => " ++ numeral⟩

theorem halves_eq_of_dump_eq :
    ∃ report report', (halfOf "0.50").check false = .ok report ∧
      (halfOf "00.5").check false = .ok report' ∧
      report.program.numbers = [Decimal.ofNumeral "0.5"] ∧
      report.program.toJson.pretty = report'.program.toJson.pretty ∧
      report.program = report'.program := by
  have numbers : ((halfOf "0.50").check false).toOption.map (·.program.numbers) =
      some [Decimal.ofNumeral "0.5"] := by decide +kernel
  have numbers' : ((halfOf "00.5").check false).toOption.map (·.program.numbers) =
      some [Decimal.ofNumeral "0.5"] := by decide +kernel
  have dumps : ((halfOf "0.50").check false).toOption.map (·.program.toJson.pretty) =
      ((halfOf "00.5").check false).toOption.map (·.program.toJson.pretty) := by decide +kernel
  have finite : ∀ number ∈ [Decimal.ofNumeral "0.5"], number.isFinite = true := by decide +kernel
  cases checked : (halfOf "0.50").check false with
  | error failure =>
    rw [checked] at numbers
    cases numbers
  | ok report =>
    cases checked' : (halfOf "00.5").check false with
    | error failure =>
      rw [checked'] at numbers'
      cases numbers'
    | ok report' =>
      rw [checked] at numbers dumps
      rw [checked'] at numbers' dumps
      have numbers : report.program.numbers = _ := Option.some.inj numbers
      have numbers' : report'.program.numbers = _ := Option.some.inj numbers'
      have same := Option.some.inj dumps
      refine ⟨report, report', rfl, rfl, numbers, same, ?_⟩
      exact (Program.eq_of_dump_eq report.program report'.program (by rwa [numbers])
        (by rwa [numbers'])).2 same

end ArrowCheck
