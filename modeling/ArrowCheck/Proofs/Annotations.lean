/-
This file proves that inference annotates every node of a tree and does nothing
else to it. Once a program has been inferred, the type of a node mentions only
variables that are still free, so resolving it again changes nothing, whether or
not errors were reported. Without its annotations the tree is the given one.
-/

import ArrowCheck.Proofs.Programs

namespace ArrowCheck

/-! ### What the nodes of a tree carry -/

mutual

/-- What an expression and its parts carry. -/
def Expr.infos : Expr → List Info
  | .number _ info | .string _ info | .bool _ info | .ident _ info => [info]
  | .binary _ left right info => info :: (left.infos ++ right.infos)
  | .conditional test consequent alternate info =>
    info :: (test.infos ++ (consequent.infos ++ alternate.infos))
  | .arrow params _ body info => info :: (params.map Param.info ++ body.infos)
  | .call callee arguments info => info :: (callee.infos ++ Expr.infosAll arguments)
  | .array elements info => info :: Expr.infosAll elements
  | .index object position info => info :: (object.infos ++ position.infos)

/-- What expressions and their parts carry. -/
def Expr.infosAll : List Expr → List Info
  | [] => []
  | head :: tail => head.infos ++ Expr.infosAll tail

/-- What the parts of the body of an arrow function carry. -/
def Body.infos : Body → List Info
  | .value value => value.infos
  | .block statements => Stmt.infosAll statements

/-- What a statement and its parts carry. -/
def Stmt.infos : Stmt → List Info
  | .const _ _ init info => info :: init.infos
  | .return (some argument) info => info :: argument.infos
  | .return none info => [info]
  | .expr value => value.infos

/-- What statements and their parts carry. -/
def Stmt.infosAll : List Stmt → List Info
  | [] => []
  | head :: tail => head.infos ++ Stmt.infosAll tail

end

/-- What a program and its parts carry. -/
def Program.infos (program : Program) : List Info :=
  program.info :: Stmt.infosAll program.body

mutual

theorem Expr.tys_eq : (expr : Expr) → expr.tys = expr.infos.flatMap Info.tys
  | .number _ info | .string _ info | .bool _ info | .ident _ info =>
    (List.flatMap_singleton Info.tys info).symm
  | .binary _ first second _ | .index first second _ => by
    rw [Expr.tys, Expr.infos, List.flatMap_cons, List.flatMap_append, first.tys_eq, second.tys_eq]
  | .conditional test consequent alternate _ => by
    rw [Expr.tys, Expr.infos, List.flatMap_cons, List.flatMap_append, List.flatMap_append,
      test.tys_eq, consequent.tys_eq, alternate.tys_eq]
  | .arrow params _ body _ => by
    rw [Expr.tys, Expr.infos, List.flatMap_cons, List.flatMap_append, List.flatMap_map,
      body.tys_eq]
    rfl
  | .call callee arguments _ => by
    rw [Expr.tys, Expr.infos, List.flatMap_cons, List.flatMap_append, callee.tys_eq,
      Expr.tysAll_eq arguments]
  | .array elements _ => by
    rw [Expr.tys, Expr.infos, List.flatMap_cons, Expr.tysAll_eq elements]

theorem Expr.tysAll_eq : (exprs : List Expr) →
    Expr.tysAll exprs = (Expr.infosAll exprs).flatMap Info.tys
  | [] => rfl
  | head :: tail => by
    rw [Expr.tysAll, Expr.infosAll, List.flatMap_append, head.tys_eq, Expr.tysAll_eq tail]

theorem Body.tys_eq : (body : Body) → body.tys = body.infos.flatMap Info.tys
  | .value value => value.tys_eq
  | .block statements => Stmt.tysAll_eq statements

theorem Stmt.tys_eq : (statement : Stmt) → statement.tys = statement.infos.flatMap Info.tys
  | .const _ _ expr _ | .return (some expr) _ => by
    rw [Stmt.tys, Stmt.infos, List.flatMap_cons, expr.tys_eq]
  | .return none info => (List.flatMap_singleton Info.tys info).symm
  | .expr value => value.tys_eq

theorem Stmt.tysAll_eq : (statements : List Stmt) →
    Stmt.tysAll statements = (Stmt.infosAll statements).flatMap Info.tys
  | [] => rfl
  | head :: tail => by
    rw [Stmt.tysAll, Stmt.infosAll, List.flatMap_append, head.tys_eq, Stmt.tysAll_eq tail]

end

theorem Program.tys_eq (program : Program) : program.tys = program.infos.flatMap Info.tys := by
  rw [Program.tys, Program.infos, List.flatMap_cons, Stmt.tysAll_eq]

theorem Program.mem_tys {program : Program} {ty : Ty} :
    ty ∈ program.tys ↔ ∃ info ∈ program.infos, info.ty = some ty := by
  rw [Program.tys_eq, List.mem_flatMap]
  exact exists_congr fun info => and_congr_right fun _ => Option.mem_toList

/-! ### Trees without their types -/

/-- What a node carries without its type. -/
def Info.erased (info : Info) : Info :=
  { info with ty := none }

/-- A parameter without its type. -/
def Param.erased (param : Param) : Param :=
  { param with info := param.info.erased }

mutual

/-- An expression without the types of its parts. -/
def Expr.erased : Expr → Expr
  | .number value info => .number value info.erased
  | .string value info => .string value info.erased
  | .bool value info => .bool value info.erased
  | .ident name info => .ident name info.erased
  | .binary operator left right info => .binary operator left.erased right.erased info.erased
  | .conditional test consequent alternate info =>
    .conditional test.erased consequent.erased alternate.erased info.erased
  | .arrow params result body info =>
    .arrow (params.map Param.erased) result body.erased info.erased
  | .call callee arguments info => .call callee.erased (Expr.erasedAll arguments) info.erased
  | .array elements info => .array (Expr.erasedAll elements) info.erased
  | .index object position info => .index object.erased position.erased info.erased

/-- Expressions without the types of their parts. -/
def Expr.erasedAll : List Expr → List Expr
  | [] => []
  | head :: tail => head.erased :: Expr.erasedAll tail

/-- The body of an arrow function without the types of its parts. -/
def Body.erased : Body → Body
  | .value value => .value value.erased
  | .block statements => .block (Stmt.erasedAll statements)

/-- A statement without the types of its parts. -/
def Stmt.erased : Stmt → Stmt
  | .const name declared init info => .const name declared init.erased info.erased
  | .return (some argument) info => .return (some argument.erased) info.erased
  | .return none info => .return none info.erased
  | .expr value => .expr value.erased

/-- Statements without the types of their parts. -/
def Stmt.erasedAll : List Stmt → List Stmt
  | [] => []
  | head :: tail => head.erased :: Stmt.erasedAll tail

end

/-- A program without the types of its parts. -/
def Program.erased (program : Program) : Program :=
  ⟨Stmt.erasedAll program.body, program.info.erased⟩

/-! ### Trees without types are their own erasures -/

/-- No node has a type. -/
def Unfilled (infos : List Info) : Prop :=
  ∀ info ∈ infos, info.ty = none

theorem unfilled_cons {info : Info} {infos : List Info} :
    Unfilled (info :: infos) ↔ info.ty = none ∧ Unfilled infos :=
  List.forall_mem_cons

theorem unfilled_append {first second : List Info} :
    Unfilled (first ++ second) ↔ Unfilled first ∧ Unfilled second :=
  List.forall_mem_append

theorem Info.erased_eq_self {info : Info} (unfilled : info.ty = none) : info.erased = info := by
  rw [Info.erased, ← unfilled]

theorem Param.erased_eq_self {params : List Param} (unfilled : Unfilled (params.map Param.info)) :
    params.map Param.erased = params := by
  induction params with
  | nil => rfl
  | cons param rest inductionHypothesis =>
    rw [List.map_cons, unfilled_cons] at unfilled
    rw [List.map_cons, inductionHypothesis unfilled.2, Param.erased,
      Info.erased_eq_self unfilled.1]

mutual

theorem Expr.erased_eq_self (expr : Expr) (unfilled : Unfilled expr.infos) :
    expr.erased = expr := by
  match expr with
  | .number _ _ | .string _ _ | .bool _ _ | .ident _ _ =>
    rw [Expr.infos, unfilled_cons] at unfilled
    rw [Expr.erased, Info.erased_eq_self unfilled.1]
  | .binary _ first second _ | .index first second _ =>
    rw [Expr.infos, unfilled_cons, unfilled_append] at unfilled
    rw [Expr.erased, first.erased_eq_self unfilled.2.1, second.erased_eq_self unfilled.2.2,
      Info.erased_eq_self unfilled.1]
  | .conditional test consequent alternate _ =>
    rw [Expr.infos, unfilled_cons, unfilled_append, unfilled_append] at unfilled
    rw [Expr.erased, test.erased_eq_self unfilled.2.1, consequent.erased_eq_self unfilled.2.2.1,
      alternate.erased_eq_self unfilled.2.2.2, Info.erased_eq_self unfilled.1]
  | .arrow _ _ body _ =>
    rw [Expr.infos, unfilled_cons, unfilled_append] at unfilled
    rw [Expr.erased, Param.erased_eq_self unfilled.2.1, body.erased_eq_self unfilled.2.2,
      Info.erased_eq_self unfilled.1]
  | .call callee arguments _ =>
    rw [Expr.infos, unfilled_cons, unfilled_append] at unfilled
    rw [Expr.erased, callee.erased_eq_self unfilled.2.1,
      Expr.erasedAll_eq_self arguments unfilled.2.2, Info.erased_eq_self unfilled.1]
  | .array elements _ =>
    rw [Expr.infos, unfilled_cons] at unfilled
    rw [Expr.erased, Expr.erasedAll_eq_self elements unfilled.2,
      Info.erased_eq_self unfilled.1]

theorem Expr.erasedAll_eq_self (exprs : List Expr) (unfilled : Unfilled (Expr.infosAll exprs)) :
    Expr.erasedAll exprs = exprs := by
  match exprs with
  | [] => rfl
  | head :: tail =>
    rw [Expr.infosAll, unfilled_append] at unfilled
    rw [Expr.erasedAll, head.erased_eq_self unfilled.1, Expr.erasedAll_eq_self tail unfilled.2]

theorem Body.erased_eq_self (body : Body) (unfilled : Unfilled body.infos) :
    body.erased = body := by
  match body with
  | .value value => exact congrArg Body.value (value.erased_eq_self unfilled)
  | .block statements => exact congrArg Body.block (Stmt.erasedAll_eq_self statements unfilled)

theorem Stmt.erased_eq_self (statement : Stmt) (unfilled : Unfilled statement.infos) :
    statement.erased = statement := by
  match statement with
  | .const _ _ expr _ | .return (some expr) _ =>
    rw [Stmt.infos, unfilled_cons] at unfilled
    rw [Stmt.erased, expr.erased_eq_self unfilled.2, Info.erased_eq_self unfilled.1]
  | .return none _ =>
    rw [Stmt.infos, unfilled_cons] at unfilled
    rw [Stmt.erased, Info.erased_eq_self unfilled.1]
  | .expr value => exact congrArg Stmt.expr (value.erased_eq_self unfilled)

theorem Stmt.erasedAll_eq_self (statements : List Stmt)
    (unfilled : Unfilled (Stmt.infosAll statements)) : Stmt.erasedAll statements = statements := by
  match statements with
  | [] => rfl
  | head :: tail =>
    rw [Stmt.infosAll, unfilled_append] at unfilled
    rw [Stmt.erasedAll, head.erased_eq_self unfilled.1, Stmt.erasedAll_eq_self tail unfilled.2]

end

theorem Program.erased_eq_self {program : Program} (untyped : program.tys = []) :
    program.erased = program := by
  rw [Program.tys_eq, List.flatMap_eq_nil_iff] at untyped
  have unfilled : Unfilled program.infos :=
    fun info member => Option.toList_eq_nil_iff.mp (untyped info member)
  rw [Program.infos, unfilled_cons] at unfilled
  rw [Program.erased, Stmt.erasedAll_eq_self _ unfilled.2, Info.erased_eq_self unfilled.1]

/-! ### Changing types that are there -/

section WithTys

variable (change : Ty → Ty)

theorem Info.ty_withTy (info : Info) : (info.withTy change).ty = info.ty.map change := by
  obtain ⟨span, ty⟩ := info
  cases ty <;> rfl

theorem Info.erased_withTy (info : Info) : (info.withTy change).erased = info.erased := by
  obtain ⟨span, ty⟩ := info
  cases ty <;> rfl

theorem Param.infos_withTys (params : List Param) :
    (Param.withTys change params).map Param.info =
      (params.map Param.info).map (Info.withTy change) := by
  induction params with
  | nil => rfl
  | cons param rest inductionHypothesis => exact congrArg₂ List.cons rfl inductionHypothesis

theorem Param.erased_withTys (params : List Param) :
    (Param.withTys change params).map Param.erased = params.map Param.erased := by
  induction params with
  | nil => rfl
  | cons param rest inductionHypothesis =>
    exact congrArg₂ List.cons (congrArg (fun info => { param with info := info })
      (param.info.erased_withTy change)) inductionHypothesis

mutual

theorem Expr.infos_withTys : (expr : Expr) →
    (expr.withTys change).infos = expr.infos.map (Info.withTy change)
  | .number _ _ | .string _ _ | .bool _ _ | .ident _ _ => rfl
  | .binary _ first second _ | .index first second _ => by
    rw [Expr.infos, List.map_cons, List.map_append, ← first.infos_withTys,
      ← second.infos_withTys]
    rfl
  | .conditional test consequent alternate _ => by
    rw [Expr.infos, List.map_cons, List.map_append, List.map_append, ← test.infos_withTys,
      ← consequent.infos_withTys, ← alternate.infos_withTys]
    rfl
  | .arrow params _ body _ => by
    rw [Expr.infos, List.map_cons, List.map_append, ← Param.infos_withTys, ← body.infos_withTys]
    rfl
  | .call callee arguments _ => by
    rw [Expr.infos, List.map_cons, List.map_append, ← callee.infos_withTys,
      ← Expr.infosAll_withTysAll arguments]
    rfl
  | .array elements _ => by
    rw [Expr.infos, List.map_cons, ← Expr.infosAll_withTysAll elements]
    rfl

theorem Expr.infosAll_withTysAll : (exprs : List Expr) →
    Expr.infosAll (Expr.withTysAll change exprs) =
      (Expr.infosAll exprs).map (Info.withTy change)
  | [] => rfl
  | head :: tail => by
    rw [Expr.infosAll, List.map_append, ← head.infos_withTys, ← Expr.infosAll_withTysAll tail]
    rfl

theorem Body.infos_withTys : (body : Body) →
    (body.withTys change).infos = body.infos.map (Info.withTy change)
  | .value value => value.infos_withTys
  | .block statements => Stmt.infosAll_withTysAll statements

theorem Stmt.infos_withTys : (statement : Stmt) →
    (statement.withTys change).infos = statement.infos.map (Info.withTy change)
  | .const _ _ expr _ | .return (some expr) _ => by
    rw [Stmt.infos, List.map_cons, ← expr.infos_withTys]
    rfl
  | .return none _ => rfl
  | .expr value => value.infos_withTys

theorem Stmt.infosAll_withTysAll : (statements : List Stmt) →
    Stmt.infosAll (Stmt.withTysAll change statements) =
      (Stmt.infosAll statements).map (Info.withTy change)
  | [] => rfl
  | head :: tail => by
    rw [Stmt.infosAll, List.map_append, ← head.infos_withTys, ← Stmt.infosAll_withTysAll tail]
    rfl

end

mutual

theorem Expr.erased_withTys : (expr : Expr) → (expr.withTys change).erased = expr.erased
  | .number value info => congrArg (Expr.number value) (info.erased_withTy change)
  | .string value info => congrArg (Expr.string value) (info.erased_withTy change)
  | .bool value info => congrArg (Expr.bool value) (info.erased_withTy change)
  | .ident name info => congrArg (Expr.ident name) (info.erased_withTy change)
  | .binary _ first second info | .index first second info => by
    rw [Expr.erased, ← first.erased_withTys, ← second.erased_withTys, ← info.erased_withTy change]
    rfl
  | .conditional test consequent alternate info => by
    rw [Expr.erased, ← test.erased_withTys, ← consequent.erased_withTys,
      ← alternate.erased_withTys, ← info.erased_withTy change]
    rfl
  | .arrow params _ body info => by
    rw [Expr.erased, ← Param.erased_withTys change, ← body.erased_withTys,
      ← info.erased_withTy change]
    rfl
  | .call callee arguments info => by
    rw [Expr.erased, ← callee.erased_withTys, ← Expr.erasedAll_withTysAll arguments,
      ← info.erased_withTy change]
    rfl
  | .array elements info => by
    rw [Expr.erased, ← Expr.erasedAll_withTysAll elements, ← info.erased_withTy change]
    rfl

theorem Expr.erasedAll_withTysAll : (exprs : List Expr) →
    Expr.erasedAll (Expr.withTysAll change exprs) = Expr.erasedAll exprs
  | [] => rfl
  | head :: tail => congrArg₂ List.cons head.erased_withTys (Expr.erasedAll_withTysAll tail)

theorem Body.erased_withTys : (body : Body) → (body.withTys change).erased = body.erased
  | .value value => congrArg Body.value value.erased_withTys
  | .block statements => congrArg Body.block (Stmt.erasedAll_withTysAll statements)

theorem Stmt.erased_withTys : (statement : Stmt) →
    (statement.withTys change).erased = statement.erased
  | .const name declared init info =>
    congrArg₂ (Stmt.const name declared) init.erased_withTys (info.erased_withTy change)
  | .return (some argument) info =>
    congrArg₂ (fun argument => Stmt.return (some argument)) argument.erased_withTys
      (info.erased_withTy change)
  | .return none info => congrArg (Stmt.return none) (info.erased_withTy change)
  | .expr value => congrArg Stmt.expr value.erased_withTys

theorem Stmt.erasedAll_withTysAll : (statements : List Stmt) →
    Stmt.erasedAll (Stmt.withTysAll change statements) = Stmt.erasedAll statements
  | [] => rfl
  | head :: tail => congrArg₂ List.cons head.erased_withTys (Stmt.erasedAll_withTysAll tail)

end

theorem Expr.ty_withTys (expr : Expr) : (expr.withTys change).ty = expr.ty.map change := by
  cases expr <;> exact Info.ty_withTy change _

theorem Stmt.ty_withTys (statement : Stmt) :
    (statement.withTys change).ty = statement.ty.map change := by
  match statement with
  | .const _ _ _ info | .return none info | .return (some _) info => exact info.ty_withTy change
  | .expr value => exact value.ty_withTys change

theorem Program.infos_withTys (program : Program) :
    (program.withTys change).infos = program.infos.map (Info.withTy change) :=
  congrArg (List.cons (program.info.withTy change)) (Stmt.infosAll_withTysAll change program.body)

theorem Program.erased_withTys (program : Program) :
    (program.withTys change).erased = program.erased :=
  congrArg₂ Program.mk (Stmt.erasedAll_withTysAll change program.body)
    (program.info.erased_withTy change)

theorem Program.withTys_withTys (change' : Ty → Ty) (program : Program) :
    (program.withTys change).withTys change' = program.withTys (change' ∘ change) :=
  congrArg₂ Program.mk (Stmt.withTysAll_withTysAll change change' program.body)
    (program.info.withTy_withTy change change')

end WithTys

/-! ### Every node gets a type -/

/-- Every node has a type. -/
def Filled (infos : List Info) : Prop :=
  ∀ info ∈ infos, info.ty.isSome = true

@[simp] theorem filled_nil : Filled [] :=
  List.forall_mem_nil _

@[simp] theorem filled_typed {info : Info} {ty : Ty} {infos : List Info} :
    Filled ({ info with ty := some ty } :: infos) ↔ Filled infos :=
  List.forall_mem_cons.trans (and_iff_right rfl)

@[simp] theorem filled_append {first second : List Info} :
    Filled (first ++ second) ↔ Filled first ∧ Filled second :=
  List.forall_mem_append

/-- Whatever the session, a computation gives a result with a property. -/
def Session.Always {Result : Type} (action : SessionM Result) (post : Result → Prop) : Prop :=
  ∀ session, post (action session).1

namespace Session

namespace Always

variable {Result Other : Type} {action : SessionM Result} {next : Result → SessionM Other}
  {post : Other → Prop}

theorem pure {value : Result} {post : Result → Prop} (holds : post value) :
    Always (Pure.pure value) post :=
  fun _ => holds

theorem bind {middle : Result → Prop} (first : Always action middle)
    (rest : ∀ value, middle value → Always (next value) post) : Always (action >>= next) post :=
  fun session => rest _ (first session) _

/-- The result of the first step does not matter. -/
theorem after (rest : ∀ value, Always (next value) post) : Always (action >>= next) post :=
  fun _ => rest _ _

end Always

/-- The slots of parameters are filled, and nothing else is changed. -/
theorem inferParams_annotates (params : List Param) :
    Always (inferParams params) fun result =>
      Filled (result.1.map Param.info) ∧ result.1.map Param.erased = params.map Param.erased := by
  induction params with
  | nil => exact .pure ⟨filled_nil, rfl⟩
  | cons param rest inductionHypothesis =>
    have annotated : Always (inferParam param) fun result =>
        ∃ ty, result.1 = { param with info := { param.info with ty := some ty } } := by
      obtain ⟨name, declared, info⟩ := param
      cases declared <;> exact .after fun ty => .after fun _ => .after fun _ => .pure ⟨ty, rfl⟩
    refine .bind annotated ?_
    rintro ⟨_, ty⟩ ⟨slot, rfl⟩
    refine .bind inductionHypothesis ?_
    rintro ⟨rest', tys⟩ ⟨filled, erased⟩
    exact .pure ⟨filled_typed.mpr filled, congrArg (List.cons _) erased⟩

end Session

/-- Inferring the expression fills its slots, the outermost one with the type that it gives, and
changes nothing else. -/
def Expr.Annotated (expr : Expr) : Prop :=
  Session.Always (Session.inferExpr expr) fun result =>
    Filled result.1.infos ∧ result.1.erased = expr.erased ∧ result.1.ty = some result.2

/-- Inferring the statement fills its slots in the same way. -/
def Stmt.Annotated (statement : Stmt) : Prop :=
  Session.Always (Session.inferStmt statement) fun result =>
    Filled result.1.infos ∧ result.1.erased = statement.erased ∧ result.1.ty = some result.2

namespace Session

mutual

theorem inferExpr_annotates (expr : Expr) : expr.Annotated := by
  match expr with
  | .number _ _ | .string _ _ | .bool _ _ =>
    exact .pure ⟨filled_typed.mpr filled_nil, rfl, rfl⟩
  | .ident _ _ => exact .after fun _ => .pure ⟨filled_typed.mpr filled_nil, rfl, rfl⟩
  | .binary operator left right info =>
    refine .bind (inferExpr_annotates left) fun left' annotated => ?_
    refine .bind (inferExpr_annotates right) fun right' annotated' => ?_
    refine .after fun ty => .pure ⟨?_, ?_, rfl⟩
    · simp only [Expr.infos, filled_typed, filled_append, annotated, annotated', and_self]
    · simp only [Expr.erased, Info.erased, annotated, annotated']
  | .conditional test consequent alternate info =>
    refine .bind (inferExpr_annotates test) fun test' annotated => .after fun _ => ?_
    refine .bind (inferExpr_annotates consequent) fun consequent' annotated' => ?_
    refine .bind (inferExpr_annotates alternate) fun alternate' annotated'' => ?_
    refine .after fun ty => .after fun _ => .after fun _ => .pure ⟨?_, ?_, rfl⟩
    · simp only [Expr.infos, filled_typed, filled_append, annotated, annotated', annotated'',
        and_self]
    · simp only [Expr.erased, Info.erased, annotated, annotated', annotated'']
  | .arrow params result body info =>
    refine .after fun _ => .bind (inferParams_annotates params) fun params' annotated => ?_
    refine .bind (inferBody_annotates body) fun body' annotated' => ?_
    refine .after fun _ => .after fun _ => .after fun _ => .pure ⟨?_, ?_, rfl⟩
    · simp only [Expr.infos, filled_typed, filled_append, annotated, annotated', and_self]
    · simp only [Expr.erased, Info.erased, annotated, annotated']
  | .call callee arguments info =>
    refine .bind (inferExpr_annotates callee) fun callee' annotated => .after fun _ => ?_
    refine .bind (inferArguments_annotates arguments) fun arguments' annotated' => ?_
    refine .after fun ty => .pure ⟨?_, ?_, rfl⟩
    · simp only [Expr.infos, filled_typed, filled_append, annotated, annotated', and_self]
    · simp only [Expr.erased, Info.erased, annotated, annotated']
  | .array [] info => exact .after fun _ => .pure ⟨filled_typed.mpr filled_nil, rfl, rfl⟩
  | .array (first :: rest) info =>
    refine .bind (inferExpr_annotates first) fun first' annotated => ?_
    refine .bind (inferElements_annotates first'.2 rest) fun rest' annotated' => ?_
    refine .pure ⟨?_, ?_, rfl⟩
    · simp only [Expr.infos, Expr.infosAll, filled_typed, filled_append, annotated, annotated',
        and_self]
    · simp only [Expr.erased, Expr.erasedAll, Info.erased, annotated, annotated']
  | .index object position info =>
    refine .bind (inferExpr_annotates position) fun position' annotated => .after fun _ => ?_
    refine .bind (inferExpr_annotates object) fun object' annotated' => ?_
    refine .after fun ty => .pure ⟨?_, ?_, rfl⟩
    · simp only [Expr.infos, filled_typed, filled_append, annotated, annotated', and_self]
    · simp only [Expr.erased, Info.erased, annotated, annotated']

theorem inferArguments_annotates (arguments : List Expr) :
    Always (inferArguments arguments) fun result =>
      Filled (Expr.infosAll result.1) ∧ Expr.erasedAll result.1 = Expr.erasedAll arguments := by
  match arguments with
  | [] => exact .pure ⟨filled_nil, rfl⟩
  | head :: tail =>
    refine .bind (inferExpr_annotates head) fun head' annotated => ?_
    refine .bind (inferArguments_annotates tail) fun tail' annotated' => .pure ⟨?_, ?_⟩
    · exact filled_append.mpr ⟨annotated.1, annotated'.1⟩
    · exact congrArg₂ List.cons annotated.2.1 annotated'.2

theorem inferElements_annotates (element : Ty) (elements : List Expr) :
    Always (inferElements element elements) fun result =>
      Filled (Expr.infosAll result) ∧ Expr.erasedAll result = Expr.erasedAll elements := by
  match elements with
  | [] => exact .pure ⟨filled_nil, rfl⟩
  | head :: tail =>
    refine .bind (inferExpr_annotates head) fun head' annotated => .after fun _ => ?_
    refine .bind (inferElements_annotates element tail) fun tail' annotated' => .pure ⟨?_, ?_⟩
    · exact filled_append.mpr ⟨annotated.1, annotated'.1⟩
    · exact congrArg₂ List.cons annotated.2.1 annotated'.2

theorem inferBody_annotates (body : Body) :
    Always (inferBody body) fun result =>
      Filled result.1.infos ∧ result.1.erased = body.erased := by
  match body with
  | .value value =>
    refine .bind (inferExpr_annotates value) fun value' annotated => ?_
    exact .pure ⟨annotated.1, congrArg Body.value annotated.2.1⟩
  | .block statements =>
    refine .bind (inferBlock_annotates statements) fun statements' annotated => ?_
    exact .pure ⟨annotated.1, congrArg Body.block annotated.2⟩

theorem inferBlock_annotates (statements : List Stmt) :
    Always (inferBlock statements) fun result =>
      Filled (Stmt.infosAll result.1) ∧ Stmt.erasedAll result.1 = Stmt.erasedAll statements := by
  match statements with
  | [] => exact .pure ⟨filled_nil, rfl⟩
  | head :: tail =>
    refine .bind (inferStmt_annotates head) fun head' annotated => ?_
    show Always (if _ then _ else _) _
    split_ifs with last
    · rw [last.2]
      exact .pure ⟨filled_append.mpr ⟨annotated.1, filled_nil⟩,
        congrArg₂ List.cons annotated.2.1 rfl⟩
    · refine .after fun _ => ?_
      refine .bind (inferBlock_annotates tail) fun tail' annotated' => .pure ⟨?_, ?_⟩
      · exact filled_append.mpr ⟨annotated.1, annotated'.1⟩
      · exact congrArg₂ List.cons annotated.2.1 annotated'.2

theorem inferStmt_annotates (statement : Stmt) : statement.Annotated := by
  match statement with
  | .const name declared init info =>
    refine .bind (inferExpr_annotates init) fun init' annotated => ?_
    refine .after fun ty => .after fun _ => .pure ⟨filled_typed.mpr annotated.1, ?_, rfl⟩
    exact congrArg₂ (Stmt.const name declared) annotated.2.1 rfl
  | .return (some argument) info =>
    refine .bind (inferExpr_annotates argument) fun argument' annotated => ?_
    refine .pure ⟨filled_typed.mpr annotated.1, ?_, rfl⟩
    exact congrArg₂ (fun argument => Stmt.return (some argument)) annotated.2.1 rfl
  | .return none info => exact .pure ⟨filled_typed.mpr filled_nil, rfl, rfl⟩
  | .expr value =>
    refine .bind (inferExpr_annotates value) fun value' annotated => ?_
    exact .pure ⟨annotated.1, congrArg Stmt.expr annotated.2.1, annotated.2.2⟩

end

theorem inferStmts_annotates (statements : List Stmt) :
    Always (inferStmts statements) fun result =>
      Filled (Stmt.infosAll result.1) ∧ Stmt.erasedAll result.1 = Stmt.erasedAll statements ∧
        result.1.map Stmt.ty = result.2.map some := by
  induction statements with
  | nil => exact .pure ⟨filled_nil, rfl, rfl⟩
  | cons head tail inductionHypothesis =>
    refine .bind (inferStmt_annotates head) fun head' annotated => ?_
    refine .bind inductionHypothesis fun tail' annotated' => .pure ⟨?_, ?_, ?_⟩
    · exact filled_append.mpr ⟨annotated.1, annotated'.1⟩
    · exact congrArg₂ List.cons annotated.2.1 annotated'.2.1
    · exact congrArg₂ List.cons annotated.2.2 annotated'.2.2

end Session

/-! ### Whole programs -/

/-- The type of the last statement, and no value if there is none. -/
def Stmt.lastTy (statements : List Stmt) : Option Ty :=
  (statements.getLast?.map Stmt.ty).getD (some .void)

theorem Stmt.lastTy_withTysAll (arena : Arena) {statements : List Stmt} {tys : List Ty}
    (typed : statements.map Stmt.ty = tys.map some) :
    Stmt.lastTy (Stmt.withTysAll arena.solved statements) =
      some (arena.solved (tys.getLastD .void)) := by
  have slots : (Stmt.withTysAll arena.solved statements).map Stmt.ty =
      tys.map (some ∘ arena.solved) := by
    calc (Stmt.withTysAll arena.solved statements).map Stmt.ty
      _ = (statements.map Stmt.ty).map (Option.map arena.solved) := by
        rw [Stmt.withTysAll_eq_map, List.map_map, List.map_map]
        exact List.map_congr_left fun statement _ => statement.ty_withTys arena.solved
      _ = tys.map (some ∘ arena.solved) := by
        rw [typed, List.map_map]
        rfl
  rw [Stmt.lastTy, ← List.getLast?_map, slots, List.getLast?_map, List.getLastD_eq_getLast?]
  cases tys.getLast? with
  | none => exact congrArg some (Arena.solved_prim _).symm
  | some ty => rfl

namespace Session

open Arena

variable {session : Session}

/-- The slots of a tree that inference gives are filled with meanings, in the session that is left,
of types that mention only variables that exist. -/
theorem infer_exists_raw (wellFormed : session.WellFormed) (program : Program) :
    Ensures (infer program) session fun result after => ∃ raw : Program,
      result.1 = raw.withTys after.arena.solved ∧ after.arena.WellFormed ∧
        after.arena.CoversEach raw.tys ∧ Filled raw.infos ∧ raw.erased = program.erased ∧
        result.1.info.ty = Stmt.lastTy result.1.body ∧
        result.2.programTy = Stmt.lastTy result.1.body := by
  refine (infer_fills wellFormed.ready program).mono ?_
  rintro ⟨_, outcome⟩ _ ⟨statements, tys, now, ran, _, ⟨arena, shortens, rfl⟩, rfl, _, programTy⟩
  have annotated := inferStmts_annotates program.body session
  have continues := inferStmts_continues program.body wellFormed.ready
  rw [Ensures] at continues
  rw [ran] at annotated continues
  obtain ⟨filled, erased, slots⟩ := annotated
  obtain ⟨_, coversTys, coversSlots⟩ := continues
  have covers := coversEach_append.mpr
    ⟨coversEach_singleton.mpr (covers_getLastD coversTys), coversSlots⟩
  -- Filling the slots changes no meaning.
  rw [← funext shortens.solved] at programTy ⊢
  have last := Stmt.lastTy_withTysAll arena slots
  refine ⟨⟨statements, program.info.typed (tys.getLastD .void)⟩, rfl, shortens.wellFormed,
    fun ty member => shortens.covers (covers ty member), filled_typed.mpr filled,
    congrArg₂ Program.mk erased rfl, last.symm, programTy.trans last.symm⟩

/-- Filled slots hold types whose variables are free. -/
theorem exists_free_of_mem_withTys {arena : Arena} (wellFormed : arena.WellFormed)
    {program : Program} (covers : arena.CoversEach program.tys) (filled : Filled program.infos)
    {info : Info} (member : info ∈ (program.withTys arena.solved).infos) :
    ∃ ty, info.ty = some ty ∧ ∀ id ∈ ty.vars, arena.isFree id = true := by
  rw [Program.infos_withTys] at member
  obtain ⟨source, inside, rfl⟩ := List.mem_map.mp member
  obtain ⟨ty, known⟩ := Option.isSome_iff_exists.mp (filled source inside)
  have slot : ty ∈ program.tys := Program.mem_tys.mpr ⟨source, inside, known⟩
  refine ⟨arena.solved ty, ?_, fun id => isFree_of_mem_solved wellFormed (covers ty slot)⟩
  rw [Info.ty_withTy, known]
  rfl

theorem resolve_eq_self {ty : Ty} (free : ∀ id ∈ ty.vars, session.arena.isFree id = true) :
    resolve ty session = (ty, session) := by
  rw [resolve, onArena, resolve_of_free free]

/-- Filling slots again whose types are resolved changes nothing. -/
theorem finalize_eq_self (wellFormed : session.arena.WellFormed) {program : Program}
    (free : ∀ ty ∈ (program.withTys session.arena.solved).tys, ∀ id ∈ ty.vars,
      session.arena.isFree id = true) :
    finalize (program.withTys session.arena.solved) session =
      (program.withTys session.arena.solved, session) := by
  have walked : Ensures (finalize (program.withTys session.arena.solved)) session
      fun result after => after = session ∧
        result = (program.withTys session.arena.solved).withTys session.arena.solved := by
    refine Program.mapTys_ensures ?_ rfl
    rintro ty member _ rfl
    rw [Ensures, resolve_eq_self (free ty member)]
    refine ⟨rfl, (Ty.subst_eq_self fun id occurs => ?_).symm⟩
    exact meaning_of_free (isFree_iff.mp (free ty member id occurs)).2
  obtain ⟨unchanged, filled⟩ := walked
  have again : session.arena.solved ∘ session.arena.solved = session.arena.solved :=
    funext (solved_solved wellFormed)
  rw [Program.withTys_withTys, again] at filled
  exact Prod.ext filled unchanged

/-- After a program was inferred in a well-formed session, with or without errors, every node of its
tree has a type. The variables of that type are free, so resolving it changes neither the type nor
the session, and neither does filling the slots once more. The program has the type of its last
statement. Without its types the tree is the one that was given. -/
theorem infer_annotates (session : Session) (wellFormed : session.WellFormed) (program : Program) :
    let typed := (infer program session).1.1
    let outcome := (infer program session).1.2
    let after := (infer program session).2
    (∀ info ∈ typed.infos, ∃ ty, info.ty = some ty ∧
        (∀ id ∈ ty.vars, after.arena.isFree id = true) ∧ resolve ty after = (ty, after)) ∧
      finalize typed after = (typed, after) ∧
      typed.info.ty = Stmt.lastTy typed.body ∧ outcome.programTy = Stmt.lastTy typed.body ∧
      typed.erased = program.erased ∧ (program.tys = [] → typed.erased = program) := by
  intro typed outcome after
  obtain ⟨raw, typedIs, wellFormed', covers, filled, erased, slot, programTy⟩ :=
    infer_exists_raw wellFormed program
  replace typedIs : typed = raw.withTys after.arena.solved := typedIs
  have free {info : Info} (member : info ∈ typed.infos) :
      ∃ ty, info.ty = some ty ∧ ∀ id ∈ ty.vars, after.arena.isFree id = true := by
    rw [typedIs] at member
    exact exists_free_of_mem_withTys wellFormed' covers filled member
  have sameTree : typed.erased = program.erased := by
    rw [typedIs, Program.erased_withTys]
    exact erased
  refine ⟨fun info member => ?_, ?_, slot, programTy, sameTree, fun untyped => ?_⟩
  · obtain ⟨ty, known, unlinked⟩ := free member
    exact ⟨ty, known, unlinked, resolve_eq_self unlinked⟩
  · rw [typedIs] at free ⊢
    refine finalize_eq_self wellFormed' fun ty member => ?_
    obtain ⟨info, inside, known⟩ := Program.mem_tys.mp member
    obtain ⟨other, known', unlinked⟩ := free inside
    rw [known, Option.some_inj] at known'
    rw [known']
    exact unlinked
  · rw [sameTree, Program.erased_eq_self untyped]

/-- A product of a name without a binding and a truth value is annotated like everything else, and
so is the identity function before it. -/
theorem failing_product_annotated :
    let program : Program := ⟨[
      .const "identity" none (.arrow [⟨"x", none, {}⟩] none (.value (.ident "x" {})) {}) {},
      .expr (.binary .mul (.ident "y" {}) (.bool true {}) {})], {}⟩
    let typed := (infer program (new false)).1.1
    let after := (infer program (new false)).2
    (infer program (new false)).1.2.diagnostics.length = 2 ∧ typed.infos.length = 8 ∧
      (∀ info ∈ typed.infos, info.ty.isSome = true) ∧ finalize typed after = (typed, after) ∧
      typed.erased = program := by
  intro program typed after
  obtain ⟨slots, final, _, _, _, erased⟩ :=
    infer_annotates (new false) ⟨(new_ready false).wellFormed, (new_ready false).covers⟩ program
  refine ⟨by decide +kernel, by decide +kernel, fun info member => ?_, final, erased rfl⟩
  obtain ⟨ty, known, _⟩ := slots info member
  exact Option.isSome_iff_exists.mpr ⟨ty, known⟩

end Session

end ArrowCheck
