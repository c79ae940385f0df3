/-
This file proves that an arrow function whose body is a value behaves like one whose
body is a block that returns the value. In any tree, the value bodies of any arrow
functions may be written as blocks, however deep they stand inside one another: the
names are checked with the same result, and inference gives the same types and
diagnostics.

Inference takes the same steps for a value and for a block that only returns it. So
it does the same with both trees, and the tree that it gives for one is the tree that
it gives for the other, written with the same blocks. Only when the slots are filled
is there one type more to resolve for each block, and resolving cannot be noticed.
-/

import ArrowCheck.Proofs.Lossiness

namespace ArrowCheck

/-! ### Values written as blocks -/

/-- A choice among the arrow functions of a tree, each of which is given by the branches on the way
to it. If a function is chosen, its return statement is given a place in the text. -/
abbrev Choice := List Nat → Option (Option Span)

/-- What is chosen in a branch of the tree. -/
def Choice.branch (choice : Choice) (index : Nat) : Choice :=
  fun way => choice (index :: way)

mutual

/-- An expression with the value bodies of the chosen arrow functions written as blocks. -/
def Expr.withBlocks (choice : Choice) : Expr → Expr
  | .number value info => .number value info
  | .string value info => .string value info
  | .bool value info => .bool value info
  | .ident name info => .ident name info
  | .binary operator left right info =>
    .binary operator (left.withBlocks (choice.branch 0)) (right.withBlocks (choice.branch 1)) info
  | .conditional test consequent alternate info =>
    .conditional (test.withBlocks (choice.branch 0)) (consequent.withBlocks (choice.branch 1))
      (alternate.withBlocks (choice.branch 2)) info
  | .arrow params result body info => .arrow params result (body.withBlocks choice) info
  | .call callee arguments info =>
    .call (callee.withBlocks (choice.branch 0)) (Expr.withBlocksAll (choice.branch 1) arguments)
      info
  | .array elements info => .array (Expr.withBlocksAll choice elements) info
  | .index object position info =>
    .index (object.withBlocks (choice.branch 0)) (position.withBlocks (choice.branch 1)) info

/-- Expressions with chosen value bodies written as blocks. -/
def Expr.withBlocksAll (choice : Choice) : List Expr → List Expr
  | [] => []
  | head :: tail =>
    head.withBlocks (choice.branch 0) :: Expr.withBlocksAll (choice.branch 1) tail

/-- The body of an arrow function with chosen value bodies written as blocks. It is one itself if
the function is chosen. A return statement has the type of its argument. -/
def Body.withBlocks (choice : Choice) : Body → Body
  | .value value =>
    let written := value.withBlocks (choice.branch 0)
    match choice [] with
    | some span => .block [.return (some written) ⟨span, value.ty⟩]
    | none => .value written
  | .block statements => .block (Stmt.withBlocksAll (choice.branch 0) statements)

/-- A statement with chosen value bodies written as blocks. -/
def Stmt.withBlocks (choice : Choice) : Stmt → Stmt
  | .const name declared init info => .const name declared (init.withBlocks choice) info
  | .return (some argument) info => .return (some (argument.withBlocks choice)) info
  | .return none info => .return none info
  | .expr value => .expr (value.withBlocks choice)

/-- Statements with chosen value bodies written as blocks. -/
def Stmt.withBlocksAll (choice : Choice) : List Stmt → List Stmt
  | [] => []
  | head :: tail =>
    head.withBlocks (choice.branch 0) :: Stmt.withBlocksAll (choice.branch 1) tail

end

/-- A program with chosen value bodies written as blocks. -/
def Program.withBlocks (choice : Choice) (program : Program) : Program :=
  { program with body := Stmt.withBlocksAll choice program.body }

theorem Expr.info_withBlocks (choice : Choice) (expr : Expr) :
    (expr.withBlocks choice).info = expr.info := by
  cases expr <;> rfl

theorem Expr.span_withBlocks (choice : Choice) (expr : Expr) :
    (expr.withBlocks choice).span = expr.span :=
  congrArg Info.span (expr.info_withBlocks choice)

/-! ### Names -/

mutual

/-- Names are checked in a block that only returns a value as they are in the value. -/
theorem Expr.nameFaults_withBlocks (choice : Choice) (scope : NameScope) (expr : Expr) :
    (expr.withBlocks choice).nameFaults scope = expr.nameFaults scope := by
  match expr with
  | .number _ _ | .string _ _ | .bool _ _ | .ident _ _ => rfl
  | .binary _ left right _ | .index left right _ =>
    simp only [Expr.withBlocks, Expr.nameFaults, left.nameFaults_withBlocks,
      right.nameFaults_withBlocks]
  | .conditional test consequent alternate _ =>
    simp only [Expr.withBlocks, Expr.nameFaults, test.nameFaults_withBlocks,
      consequent.nameFaults_withBlocks, alternate.nameFaults_withBlocks]
  | .arrow _ _ body _ => simp only [Expr.withBlocks, Expr.nameFaults, body.nameFaults_withBlocks]
  | .call callee arguments _ =>
    simp only [Expr.withBlocks, Expr.nameFaults, callee.nameFaults_withBlocks,
      Expr.nameFaultsAll_withBlocks _ _ arguments]
  | .array elements _ =>
    simp only [Expr.withBlocks, Expr.nameFaults, Expr.nameFaultsAll_withBlocks _ _ elements]

theorem Expr.nameFaultsAll_withBlocks (choice : Choice) (scope : NameScope) (exprs : List Expr) :
    Expr.nameFaultsAll scope (Expr.withBlocksAll choice exprs) =
      Expr.nameFaultsAll scope exprs := by
  match exprs with
  | [] => rfl
  | head :: tail =>
    simp only [Expr.withBlocksAll, Expr.nameFaultsAll, head.nameFaults_withBlocks,
      Expr.nameFaultsAll_withBlocks _ _ tail]

theorem Body.nameFaults_withBlocks (choice : Choice) (scope : NameScope) (body : Body) :
    (body.withBlocks choice).nameFaults scope = body.nameFaults scope := by
  match body with
  | .value value =>
    have inner := value.nameFaults_withBlocks (choice.branch 0) scope
    rw [Body.withBlocks]
    cases choice [] with
    | none => exact inner
    | some span => exact (List.append_nil _).trans inner
  | .block statements =>
    simp only [Body.withBlocks, Body.nameFaults, Stmt.nameFaultsAll_withBlocks _ _ statements]

theorem Stmt.nameFaultsAll_withBlocks (choice : Choice) (scope : NameScope)
    (statements : List Stmt) :
    Stmt.nameFaultsAll scope (Stmt.withBlocksAll choice statements) =
      Stmt.nameFaultsAll scope statements := by
  match statements with
  | [] => rfl
  | .const _ _ value _ :: rest | .return (some value) _ :: rest | .expr value :: rest =>
    simp only [Stmt.withBlocksAll, Stmt.withBlocks, Stmt.nameFaultsAll,
      value.nameFaults_withBlocks, Stmt.nameFaultsAll_withBlocks _ _ rest]
  | .return none _ :: rest =>
    simp only [Stmt.withBlocksAll, Stmt.withBlocks, Stmt.nameFaultsAll,
      Stmt.nameFaultsAll_withBlocks _ _ rest]

end

/-! ### Slots -/

section Slots

variable (change : Ty → Ty)

theorem Info.withTy_eq (info : Info) : info.withTy change = ⟨info.span, info.ty.map change⟩ := by
  obtain ⟨span, ty⟩ := info
  cases ty <;> rfl

mutual

/-- Filling slots and writing values as blocks do not depend on their order. -/
theorem Expr.withTys_withBlocks (choice : Choice) (expr : Expr) :
    (expr.withBlocks choice).withTys change = (expr.withTys change).withBlocks choice :=
  match expr with
  | .number _ _ | .string _ _ | .bool _ _ | .ident _ _ => rfl
  | .binary operator left right info =>
    congrArg₂ (Expr.binary operator · · (info.withTy change))
      (left.withTys_withBlocks (choice.branch 0)) (right.withTys_withBlocks (choice.branch 1))
  | .conditional test consequent alternate info =>
    (congr (congrArg₂ (Expr.conditional · · · (info.withTy change))
      (test.withTys_withBlocks (choice.branch 0))
      (consequent.withTys_withBlocks (choice.branch 1)))
      (alternate.withTys_withBlocks (choice.branch 2)) :)
  | .arrow params result body info =>
    congrArg (Expr.arrow (Param.withTys change params) result · (info.withTy change))
      (body.withTys_withBlocks choice)
  | .call callee arguments info =>
    congrArg₂ (Expr.call · · (info.withTy change)) (callee.withTys_withBlocks (choice.branch 0))
      (Expr.withTysAll_withBlocks (choice.branch 1) arguments)
  | .array elements info =>
    congrArg (Expr.array · (info.withTy change)) (Expr.withTysAll_withBlocks choice elements)
  | .index object position info =>
    congrArg₂ (Expr.index · · (info.withTy change)) (object.withTys_withBlocks (choice.branch 0))
      (position.withTys_withBlocks (choice.branch 1))

theorem Expr.withTysAll_withBlocks (choice : Choice) (exprs : List Expr) :
    Expr.withTysAll change (Expr.withBlocksAll choice exprs) =
      Expr.withBlocksAll choice (Expr.withTysAll change exprs) :=
  match exprs with
  | [] => rfl
  | head :: tail =>
    congrArg₂ List.cons (head.withTys_withBlocks (choice.branch 0))
      (Expr.withTysAll_withBlocks (choice.branch 1) tail)

theorem Body.withTys_withBlocks (choice : Choice) (body : Body) :
    (body.withBlocks choice).withTys change = (body.withTys change).withBlocks choice := by
  match body with
  | .value value =>
    have inner := value.withTys_withBlocks (choice.branch 0)
    show _ = Body.withBlocks choice (.value (value.withTys change))
    rw [Body.withBlocks, Body.withBlocks, ← inner, Expr.ty_withTys]
    cases choice [] with
    | none => rfl
    | some span =>
      exact congrArg (fun info => Body.block [.return (some _) info]) (Info.withTy_eq change _)
  | .block statements =>
    exact congrArg Body.block (Stmt.withTysAll_withBlocks (choice.branch 0) statements)

theorem Stmt.withTys_withBlocks (choice : Choice) (statement : Stmt) :
    (statement.withBlocks choice).withTys change = (statement.withTys change).withBlocks choice :=
  match statement with
  | .const name declared init info =>
    congrArg (Stmt.const name declared · (info.withTy change)) (init.withTys_withBlocks choice)
  | .return (some argument) info =>
    congrArg (fun argument => Stmt.return (some argument) (info.withTy change))
      (argument.withTys_withBlocks choice)
  | .return none _ => rfl
  | .expr value => congrArg Stmt.expr (value.withTys_withBlocks choice)

theorem Stmt.withTysAll_withBlocks (choice : Choice) (statements : List Stmt) :
    Stmt.withTysAll change (Stmt.withBlocksAll choice statements) =
      Stmt.withBlocksAll choice (Stmt.withTysAll change statements) :=
  match statements with
  | [] => rfl
  | head :: tail =>
    congrArg₂ List.cons (head.withTys_withBlocks (choice.branch 0))
      (Stmt.withTysAll_withBlocks (choice.branch 1) tail)

end

end Slots

/-! ### Inference -/

theorem Stmt.isReturn_withBlocks (choice : Choice) (statement : Stmt) :
    (statement.withBlocks choice).isReturn = statement.isReturn := by
  match statement with
  | .const _ _ _ _ | .return (some _) _ | .return none _ | .expr _ => rfl

theorem Stmt.span_withBlocks (choice : Choice) (statement : Stmt) :
    (statement.withBlocks choice).span = statement.span := by
  match statement with
  | .const _ _ _ _ | .return (some _) _ | .return none _ => rfl
  | .expr value => exact value.span_withBlocks choice

theorem Stmt.withBlocksAll_eq_nil (choice : Choice) (statements : List Stmt) :
    Stmt.withBlocksAll choice statements = [] ↔ statements = [] := by
  cases statements with
  | nil => exact Iff.rfl
  | cons head tail => exact iff_of_false (List.cons_ne_nil _ _) (List.cons_ne_nil _ _)

namespace Session

/-- In every session the second computation does what the first one does, and gives a view of the
result. -/
def Mirrors {Result Seen : Type} (view : Result → Seen) (action : SessionM Result)
    (mirror : SessionM Seen) : Prop :=
  ∀ session, mirror session = (view (action session).1, (action session).2)

namespace Mirrors

variable {Result Seen Other Shown : Type} {view : Result → Seen} {action : SessionM Result}
  {mirror : SessionM Seen} {next : Result → SessionM Other} {view' : Other → Shown}
  {next' : Seen → SessionM Shown}

theorem pure {value : Result} {seen : Seen} (same : seen = view value) :
    Mirrors view (Pure.pure value) (Pure.pure seen) :=
  fun session => congrArg (·, session) same

/-- What the first step always gives is known of its result. -/
theorem bindKnowing {post : Result → Prop} (first : Mirrors view action mirror)
    (known : Always action post)
    (rest : ∀ value, post value → Mirrors view' (next value) (next' (view value))) :
    Mirrors view' (action >>= next) (mirror >>= next') := by
  intro session
  show next' (mirror session).1 (mirror session).2 = _
  rw [first session]
  exact rest _ (known session) _

theorem bind (first : Mirrors view action mirror)
    (rest : ∀ value, Mirrors view' (next value) (next' (view value))) :
    Mirrors view' (action >>= next) (mirror >>= next') := by
  have known : Always action fun _ => True := fun _ => trivial
  exact bindKnowing first known fun value _ => rest value

/-- A first step that both computations take. -/
theorem shared {step step' : SessionM Result} {next' : Result → SessionM Shown}
    (same : step' = step) (rest : ∀ value, Mirrors view' (next value) (next' value)) :
    Mirrors view' (step >>= next) (step' >>= next') := by
  have first : Mirrors id step step' := congrFun same
  exact bind first rest

end Mirrors

theorem reportEarlyReturn_withBlocks (choice : Choice) (statement : Stmt) :
    reportEarlyReturn (statement.withBlocks choice) = reportEarlyReturn statement := by
  rw [reportEarlyReturn, statement.isReturn_withBlocks, statement.span_withBlocks,
    reportEarlyReturn]

/-- Nothing is inferred in a block that returns a value but the value. -/
theorem inferBody_return (value : Expr) (info : Info) :
    inferBody (.block [.return (some value) info]) = (do
      let (value, ty) ← inferExpr value
      pure (.block [.return (some value) { info with ty := some ty }], ty)) :=
  rfl

mutual

theorem inferExpr_withBlocks (choice : Choice) (expr : Expr) :
    Mirrors (fun result => (result.1.withBlocks choice, result.2)) (inferExpr expr)
      (inferExpr (expr.withBlocks choice)) := by
  match expr with
  | .number _ _ | .string _ _ | .bool _ _ => exact .pure rfl
  | .ident _ _ => exact .shared rfl fun _ => .pure rfl
  | .binary operator left right info =>
    refine .bind (inferExpr_withBlocks (choice.branch 0) left) fun left' => ?_
    refine .bind (inferExpr_withBlocks (choice.branch 1) right) fun right' => ?_
    exact .shared rfl fun _ => .pure rfl
  | .conditional test consequent alternate info =>
    refine .bind (inferExpr_withBlocks (choice.branch 0) test) fun test' => ?_
    refine .shared (by rw [Expr.span_withBlocks]) fun _ => ?_
    refine .bind (inferExpr_withBlocks (choice.branch 1) consequent) fun consequent' => ?_
    refine .bind (inferExpr_withBlocks (choice.branch 2) alternate) fun alternate' => ?_
    refine .shared rfl fun ty => ?_
    refine .shared (by rw [Expr.span_withBlocks]) fun _ => ?_
    exact .shared (by rw [Expr.span_withBlocks]) fun _ => .pure rfl
  | .arrow params result body info =>
    refine .shared rfl fun _ => .shared rfl fun params' => ?_
    refine .bind (inferBody_withBlocks choice body) fun body' => ?_
    exact .shared rfl fun _ => .shared rfl fun _ => .shared rfl fun _ => .pure rfl
  | .call callee arguments info =>
    refine .bind (inferExpr_withBlocks (choice.branch 0) callee) fun callee' => ?_
    refine .shared rfl fun _ => ?_
    refine .bind (inferArguments_withBlocks (choice.branch 1) arguments) fun arguments' => ?_
    exact .shared rfl fun _ => .pure rfl
  | .array [] info => exact .shared rfl fun _ => .pure rfl
  | .array (first :: rest) info =>
    refine .bind (inferExpr_withBlocks (choice.branch 0) first) fun first' => ?_
    exact .bind (inferElements_withBlocks (choice.branch 1) first'.2 rest) fun _ => .pure rfl
  | .index object position info =>
    refine .bind (inferExpr_withBlocks (choice.branch 1) position) fun position' => ?_
    refine .shared (by rw [Expr.span_withBlocks]) fun _ => ?_
    refine .bind (inferExpr_withBlocks (choice.branch 0) object) fun object' => ?_
    exact .shared (by rw [Expr.span_withBlocks]) fun _ => .pure rfl

theorem inferArguments_withBlocks (choice : Choice) (arguments : List Expr) :
    Mirrors (fun result => (Expr.withBlocksAll choice result.1, result.2))
      (inferArguments arguments) (inferArguments (Expr.withBlocksAll choice arguments)) := by
  match arguments with
  | [] => exact .pure rfl
  | head :: tail =>
    refine .bind (inferExpr_withBlocks (choice.branch 0) head) fun head' => ?_
    refine .bind (inferArguments_withBlocks (choice.branch 1) tail) fun tail' => .pure ?_
    exact congrArg (fun span => (_, (span, head'.2) :: tail'.2)) (head'.1.span_withBlocks _)

theorem inferElements_withBlocks (choice : Choice) (element : Ty) (elements : List Expr) :
    Mirrors (Expr.withBlocksAll choice) (inferElements element elements)
      (inferElements element (Expr.withBlocksAll choice elements)) := by
  match elements with
  | [] => exact .pure rfl
  | head :: tail =>
    refine .bind (inferExpr_withBlocks (choice.branch 0) head) fun head' => ?_
    refine .shared (by rw [Expr.span_withBlocks]) fun _ => ?_
    exact .bind (inferElements_withBlocks (choice.branch 1) element tail) fun _ => .pure rfl

theorem inferBody_withBlocks (choice : Choice) (body : Body) :
    Mirrors (fun result => (result.1.withBlocks choice, result.2)) (inferBody body)
      (inferBody (body.withBlocks choice)) := by
  match body with
  | .value value =>
    have inner := inferExpr_withBlocks (choice.branch 0) value
    rw [Body.withBlocks]
    cases chosen : choice [] with
    | none =>
      refine .bind inner fun value' => .pure ?_
      rw [Body.withBlocks, chosen]
    | some span =>
      show Mirrors _ _ (inferBody (.block [.return (some _) _]))
      rw [inferBody_return]
      -- The slot of the statement is filled with the type that the slot of the value has.
      refine .bindKnowing inner (inferExpr_annotates value) fun value' annotated => .pure ?_
      rw [Body.withBlocks, chosen, annotated.2.2]
  | .block statements =>
    exact .bind (inferBlock_withBlocks (choice.branch 0) statements) fun _ => .pure rfl

theorem inferBlock_withBlocks (choice : Choice) (statements : List Stmt) :
    Mirrors (fun result => (Stmt.withBlocksAll choice result.1, result.2)) (inferBlock statements)
      (inferBlock (Stmt.withBlocksAll choice statements)) := by
  match statements with
  | [] => exact .pure rfl
  | head :: tail =>
    refine .bind (inferStmt_withBlocks (choice.branch 0) head) fun head' => ?_
    show Mirrors _ (if _ then _ else _) (if _ then _ else _)
    simp only [Stmt.isReturn_withBlocks, Stmt.withBlocksAll_eq_nil]
    split_ifs with last
    · exact .pure rfl
    · refine .shared (reportEarlyReturn_withBlocks _ _) fun _ => ?_
      exact .bind (inferBlock_withBlocks (choice.branch 1) tail) fun _ => .pure rfl

theorem inferStmt_withBlocks (choice : Choice) (statement : Stmt) :
    Mirrors (fun result => (result.1.withBlocks choice, result.2)) (inferStmt statement)
      (inferStmt (statement.withBlocks choice)) := by
  match statement with
  | .const name declared init info =>
    refine .bind (inferExpr_withBlocks choice init) fun init' => ?_
    refine .shared (by rw [Expr.span_withBlocks]) fun _ => ?_
    exact .shared rfl fun _ => .pure rfl
  | .return (some argument) info =>
    exact .bind (inferExpr_withBlocks choice argument) fun _ => .pure rfl
  | .return none info => exact .pure rfl
  | .expr value => exact .bind (inferExpr_withBlocks choice value) fun _ => .pure rfl

end

theorem inferStmts_withBlocks (choice : Choice) (statements : List Stmt) :
    Mirrors (fun result => (Stmt.withBlocksAll choice result.1, result.2)) (inferStmts statements)
      (inferStmts (Stmt.withBlocksAll choice statements)) := by
  induction statements generalizing choice with
  | nil => exact .pure rfl
  | cons head tail inductionHypothesis =>
    refine .bind (inferStmt_withBlocks (choice.branch 0) head) fun head' => ?_
    exact .bind (inductionHypothesis (choice.branch 1)) fun _ => .pure rfl

/-- The value bodies of any arrow functions of a program may be written as blocks. What is wrong
with its names stays the same. In a new session inference has the same to say about the program: its
diagnostics and its type. It gives the same tree but for the blocks, in which every slot is filled
as before and the slot of a return like that of its value. -/
theorem infer_blocks_for_values (program : Program) (choice : Choice) (lossy : Bool) :
    let typed := (infer program (new lossy)).1.1
    let outcome := (infer program (new lossy)).1.2
    (program.withBlocks choice).nameFaults = program.nameFaults ∧
      (infer (program.withBlocks choice) (new lossy)).1 = (typed.withBlocks choice, outcome) := by
  intro typed outcome
  refine ⟨Stmt.nameFaultsAll_withBlocks choice {} program.body, ?_⟩
  rcases ran : inferStmts program.body (new lossy) with ⟨⟨statements, tys⟩, now⟩
  have mirrored : inferStmts (program.withBlocks choice).body (new lossy) =
      ((Stmt.withBlocksAll choice statements, tys), now) := by
    rw [Program.withBlocks, inferStmts_withBlocks choice program.body, ran]
  have result := infer_eq (new_ready lossy) ran
  rw [infer_eq (new_ready lossy) mirrored, Stmt.withTysAll_withBlocks]
  exact (congrArg (fun result => (result.1.withBlocks choice, result.2)) result).symm

/-- In `x => y => x` the body of the inner function alone is written as a block. -/
example : (Expr.arrow [{ name := "x" }] none (.value
      (.arrow [{ name := "y" }] none (.value (.ident "x" {})) {})) {}).withBlocks
        (fun way => if way = [0] then some none else none) =
    .arrow [{ name := "x" }] none (.value
      (.arrow [{ name := "y" }] none (.block [.return (some (.ident "x" {})) {}]) {})) {} :=
  rfl

end Session

end ArrowCheck
