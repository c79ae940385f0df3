/-
This file says what inference is put together from. A step of inference works on
the arena, changes the scopes or reports a fault, and what comes next depends on
results of earlier steps, on the arena and on the scopes. No step looks at the
diagnostics, at whether an error was reported, or at how faults are graded.

Every rule of inference is such a composition of steps, so whatever holds of single
steps and carries over from two computations to the one after the other holds of
inference. Faults are only reported at places of the tree that is inferred, and
scopes are only changed in some ways: the places at which a composition may report
and what it may do to the scopes are parameters of it.
-/

import ArrowCheck.Proofs.Annotations
import ArrowCheck.Proofs.Outlines

namespace ArrowCheck

/-! ### Where a tree stands -/

namespace Outline

/-- All nodes of an outline have places with a property. -/
def At (Place : Option Span → Prop) (outline : Outline) : Prop :=
  ∀ node ∈ outline.nodes, Place node.span

/-- All nodes of outlines have places with a property. -/
def AllAt (Place : Option Span → Prop) (outlines : List Outline) : Prop :=
  ∀ node ∈ nodesAll outlines, Place node.span

variable {Place : Option Span → Prop}

@[simp] theorem at_node {span : Option Span} {children : List Outline} :
    (node span children).At Place ↔ Place span ∧ AllAt Place children :=
  List.forall_mem_cons

@[simp] theorem allAt_nil : AllAt Place [] :=
  List.forall_mem_nil _

@[simp] theorem allAt_cons {head : Outline} {tail : List Outline} :
    AllAt Place (head :: tail) ↔ head.At Place ∧ AllAt Place tail :=
  List.forall_mem_append

theorem allAt_append {first second : List Outline} :
    AllAt Place (first ++ second) ↔ AllAt Place first ∧ AllAt Place second := by
  induction first with
  | nil => simp
  | cons head tail inductionHypothesis => simp [inductionHypothesis, and_assoc]

theorem allAt_true {outlines : List Outline} : AllAt (fun _ => True) outlines :=
  fun _ _ => trivial

theorem At.span {outline : Outline} (placed : outline.At Place) : Place outline.span := by
  cases outline with
  | node span children => exact (at_node.mp placed).1

end Outline

open Outline

/-- The place of a declared type is among those of the declaration. -/
theorem WrittenType.place_declared {Place : Option Span → Prop} {declared : Option WrittenType}
    {written : WrittenType} (placed : AllAt Place (declaredOutlines declared))
    (declares : written ∈ declared) : Place written.span := by
  rw [Option.mem_def] at declares
  subst declares
  rw [← written.span_outline]
  exact (allAt_cons.mp placed).1.span

/-- Scopes differ at most in the innermost frame. -/
def Scopes.SameOuter (before after : Scopes) : Prop :=
  after.outer = before.outer

namespace Session

/-! ### Compositions -/

/-- A computation in a scope of its own. -/
def inScope {Result : Type} (action : SessionM Result) : SessionM Result := do
  pushScope
  let result ← action
  popScope
  pure result

/-- Computations that are put together from the steps of inference, report faults at some places
only, and change the scopes in some ways only. What comes after a computation has to be put together
like that for the results that the computation can give. A computation in a scope of its own may do
in it what it likes. -/
inductive Composed (Place : Option Span → Prop) :
    (Change : Scopes → Scopes → Prop) → {Result : Type} → SessionM Result → Prop where
  | pure {Change : Scopes → Scopes → Prop} {Result : Type} (value : Result) :
      Composed Place Change (Pure.pure value)
  | onArena {Change : Scopes → Scopes → Prop} {Result : Type} (action : ArenaM Result) :
      Composed Place Change (onArena action)
  | modifyScopes {Change : Scopes → Scopes → Prop} {change : Scopes → Scopes}
      (allowed : ∀ scopes, Change scopes (change scopes)) :
      Composed Place Change (modifyScopes change)
  | enclosed {Change : Scopes → Scopes → Prop} {Result : Type} {action : SessionM Result}
      (inside : Composed Place Scopes.SameOuter action) :
      Composed Place Change (inScope action)
  | report {Change : Scopes → Scopes → Prop} (kind : Fault.Kind) {span : Option Span}
      (place : Place span) (message : String) :
      Composed Place Change (modify (addDiagnostic kind span message))
  | inspect {Change : Scopes → Scopes → Prop} {Result : Type} {next : Session → SessionM Result}
      (blind : ∀ session, next session = next { arena := session.arena, scopes := session.scopes })
      (rest : ∀ session, Composed Place Change (next session)) :
      Composed Place Change (get >>= next)
  | sequence {Change : Scopes → Scopes → Prop} {Result Other : Type} {action : SessionM Result}
      {next : Result → SessionM Other} (first : Composed Place Change action)
      (rest : ∀ session, Composed Place Change (next (action session).1)) :
      Composed Place Change (action >>= next)

variable {Place : Option Span → Prop} {Change : Scopes → Scopes → Prop}

namespace Composed

variable {Result Other : Type} {action : SessionM Result} {next : Result → SessionM Other}

theorem bind (first : Composed Place Change action)
    (rest : ∀ value, Composed Place Change (next value)) :
    Composed Place Change (action >>= next) :=
  .sequence first fun _ => rest _

/-- What is known of the results of a computation may be used for what comes after it. -/
theorem bindKnowing {post : Result → Prop} (first : Composed Place Change action)
    (always : Always action post)
    (rest : ∀ value, post value → Composed Place Change (next value)) :
    Composed Place Change (action >>= next) :=
  .sequence first fun session => rest _ (always session)

/-- What every step keeps is kept by everything that is composed of steps. -/
theorem preserves (composed : Composed Place Change action) (Holds : Session → Prop)
    (onArena : ∀ session arena, Holds session → Holds { session with arena := arena })
    (onScopes : ∀ session scopes, Holds session → Holds { session with scopes := scopes })
    (reports : ∀ session kind span message, Place span → Holds session →
      Holds (addDiagnostic kind span message session))
    (session : Session) (holds : Holds session) : Holds (action session).2 := by
  induction composed generalizing session with
  | pure value => exact holds
  | onArena action => exact onArena session _ holds
  | modifyScopes _ => exact onScopes session _ holds
  | enclosed _ inductionHypothesis =>
    exact onScopes _ _ (inductionHypothesis _ (onScopes session session.scopes.push holds))
  | report kind place message => exact reports session kind _ message place holds
  | inspect _ _ inductionHypothesis => exact inductionHypothesis session session holds
  | sequence _ _ firstKeeps restKeeps => exact restKeeps session _ (firstKeeps session holds)

end Composed

/-! ### Unification -/

section Unification

variable {site : Site} (place : Place site.span)
include place

theorem composed_refuse (fault : Fault) : Composed Place Change (refuse site fault) :=
  Composed.bind (.report _ place _) fun _ => .pure false

theorem composed_bindVar (id : VarId) (ty : Ty) : Composed Place Change (bindVar site id ty) := by
  refine Composed.bind (.onArena _) fun occurs => ?_
  cases occurs with
  | true => exact .bind (.onArena _) fun shown => composed_refuse place _
  | false => exact .bind (.onArena _) fun _ => .pure true

theorem composed_shapes (first second : Ty) :
    Composed Place Change (do
      let first ← resolve first
      let second ← resolve second
      refuse site (.shapes first second)) :=
  .bind (.onArena _) fun _ => .bind (.onArena _) fun _ => composed_refuse place _

section Parts

variable {meet : Ty → Ty → SessionM Bool}

omit place in
theorem composed_unifyAllParts {firsts : List Ty}
    (each : ∀ first ∈ firsts, ∀ second, Composed Place Change (unifyParts meet site first second))
    (seconds : List Ty) : Composed Place Change (unifyAllParts meet site firsts seconds) := by
  induction firsts generalizing seconds with
  | nil => exact .pure true
  | cons first firsts inductionHypothesis =>
    obtain ⟨head, tail⟩ := List.forall_mem_cons.mp each
    cases seconds with
    | nil => exact .pure true
    | cons second seconds =>
      exact .bind (head second) fun _ => .bind (inductionHypothesis tail seconds) fun _ => .pure _

/-- Making types equal part by part is composed of steps, if meeting a variable is. -/
theorem composed_unifyParts (meets : ∀ first second, Composed Place Change (meet first second))
    (first second : Ty) : Composed Place Change (unifyParts meet site first second) := by
  induction first generalizing second with
  | var id => exact meets (.var id) second
  | prim primitive =>
    cases second with
    | var id => exact meets _ _
    | prim primitive' =>
      rw [unifyParts]
      split_ifs
      · exact .pure true
      · exact composed_refuse place _
    | fn _ _ | array _ => exact composed_shapes place _ _
  | fn params result paramsComposed resultComposed =>
    cases second with
    | var id => exact meets _ _
    | prim _ | array _ => exact composed_shapes place _ _
    | fn params' result' =>
      rw [unifyParts]
      split_ifs
      · exact .pure true
      · exact composed_refuse place _
      · refine .bind (composed_unifyAllParts paramsComposed params') fun _ => ?_
        exact .bind (resultComposed result') fun _ => .pure _
  | array element elementComposed =>
    cases second with
    | var id => exact meets _ _
    | prim _ | fn _ _ => exact composed_shapes place _ _
    | array element' =>
      rw [unifyParts]
      split_ifs
      · exact .pure true
      · exact elementComposed element'

end Parts

theorem composed_unifyWithin (hops : Nat) (first second : Ty) :
    Composed Place Change (unifyWithin site hops first second) := by
  induction hops generalizing first second with
  | zero => exact .bind (.onArena _) fun _ => .pure false
  | succ hops inductionHypothesis =>
    refine .bind (.onArena _) fun first => .bind (.onArena _) fun second => ?_
    split
    · split_ifs
      · exact .pure true
      · exact composed_bindVar place _ _
    · exact composed_bindVar place _ _
    · exact composed_bindVar place _ _
    · exact composed_unifyParts place inductionHypothesis _ _

theorem composed_unify (first second : Ty) : Composed Place Change (unify site first second) :=
  .inspect (fun _ => rfl) fun _ => composed_unifyWithin place _ first second

end Unification

/-! ### Operators, written types, calls and indices -/

section Places

variable {span : Option Span} (place : Place span)
include place

theorem composed_requireNumbers (left right : Ty) :
    Composed Place Change (requireNumbers left right span) :=
  .bind (composed_unify place _ _) fun _ => .bind (composed_unify place _ _) fun _ => .pure _

theorem composed_solveAdd (left right : Ty) : Composed Place Change (solveAdd left right span) := by
  refine .bind (.onArena _) fun left' => .bind (.onArena _) fun right' => ?_
  split
  · exact .pure _
  · exact .bind (composed_requireNumbers place left right) fun _ => .pure _
  · exact .bind (.report _ place _) fun _ => .pure _

theorem composed_solveBinary (operator : Operator) (left right : Ty) :
    Composed Place Change (solveBinary operator left right span) := by
  cases operator with
  | add => exact composed_solveAdd place left right
  | sub | mul | div | greater | less | greaterEqual | lessEqual =>
    exact .bind (composed_requireNumbers place left right) fun _ => .pure _
  | equal | unequal => exact .bind (composed_unify place _ _) fun _ => .pure _
  | mod | strictEqual | strictUnequal | and | or =>
    exact .bind (.report _ place _) fun _ => .onArena _

/-- A place that stands in for another one where that is missing. -/
theorem place_or {first : Option Span} (place' : Place first) : Place (first <|> span) := by
  cases first with
  | none => exact place
  | some _ => exact place'

theorem composed_unifyArguments (position : Nat) {arguments : List (Option Span × Ty)}
    (places : ∀ argument ∈ arguments, Place argument.1) (params : List Ty) :
    Composed Place Change (unifyArguments span position arguments params) := by
  induction arguments generalizing position params with
  | nil => exact .pure _
  | cons argument arguments inductionHypothesis =>
    obtain ⟨head, tail⟩ := List.forall_mem_cons.mp places
    cases params with
    | nil => exact .pure _
    | cons param params =>
      exact .bind (composed_unify (place_or place head) _ _) fun _ =>
        inductionHypothesis _ tail params

theorem composed_solveCall (callee : Ty) {arguments : List (Option Span × Ty)}
    (places : ∀ argument ∈ arguments, Place argument.1) :
    Composed Place Change (solveCall callee arguments span) := by
  cases callee with
  | var id =>
    exact .bind (.onArena _) fun _ => .bind (composed_unify place _ _) fun _ => .pure _
  | fn params result =>
    rw [solveCall]
    split_ifs
    · exact .bind (composed_unifyArguments place 1 places params) fun _ => .pure _
    · exact .bind (.report _ place _) fun _ => .pure _
  | prim _ | array _ =>
    exact .bind (.onArena _) fun _ => .bind (.report _ place _) fun _ => .onArena _

end Places

mutual

theorem composed_ofWritten (written : WrittenType) : Composed Place Change (ofWritten written) := by
  match written with
  | .named name span =>
    rw [ofWritten]
    split_ifs
    · exact .pure _
    · exact .pure _
    · exact .pure _
    · exact .pure _
    · exact .onArena _
  | .array element span => exact .bind (composed_ofWritten element) fun _ => .pure _
  | .function params result span =>
    exact .bind (composed_ofWrittenAll params) fun _ => .bind (composed_ofWritten result) fun _ =>
      .pure _

theorem composed_ofWrittenAll (written : List WrittenType) :
    Composed Place Change (ofWrittenAll written) := by
  match written with
  | [] => exact .pure _
  | head :: tail =>
    exact .bind (composed_ofWritten head) fun _ => .bind (composed_ofWrittenAll tail) fun _ =>
      .pure _

end

theorem composed_meetDeclared (inferred : Ty) {declared : Option WrittenType}
    {site : WrittenType → Site} (places : ∀ written ∈ declared, Place (site written).span) :
    Composed Place Change (meetDeclared inferred declared site) := by
  cases declared with
  | none => exact .pure _
  | some written =>
    exact .bind (composed_ofWritten written) fun _ =>
      .bind (composed_unify (places written rfl) _ _) fun _ => .pure _

theorem composed_solveIndex (object : Ty) {site : Site} (place : Place site.span) :
    Composed Place Change (solveIndex object site) := by
  refine .bind (.onArena _) fun head => ?_
  split
  · exact .pure _
  · exact .bind (.onArena _) fun _ => .bind (composed_unify place _ _) fun _ => .pure _

theorem composed_reportEarlyReturn {statement : Stmt} (place : Place statement.span) :
    Composed Place Change (reportEarlyReturn statement) := by
  rw [reportEarlyReturn]
  split_ifs
  · exact .report _ place _
  · exact .pure _

/-! ### Names -/

theorem composed_resolveAll (tys : List Ty) : Composed Place Change (resolveAll tys) := by
  induction tys with
  | nil => exact .pure _
  | cons head tail inductionHypothesis =>
    exact .bind (.onArena _) fun _ => .bind inductionHypothesis fun _ => .pure _

theorem composed_freshInstance (ty : Ty) : Composed Place Change (freshInstance ty) := by
  refine .bind ?_ fun kept => .onArena _
  exact .inspect (fun _ => rfl) fun _ => .bind (composed_resolveAll _) fun _ => .pure _

theorem composed_lookup (name : String) : Composed Place Change (lookup name) := by
  refine .inspect (fun _ => rfl) fun session => ?_
  split
  · exact .pure _
  · split_ifs
    · exact .pure _
    · exact .bind (composed_freshInstance _) fun _ => .pure _

theorem composed_inferIdent (name : String) {span : Option Span} (place : Place span) :
    Composed Place Change (inferIdent name span) := by
  refine .bind (composed_lookup name) fun found => ?_
  cases found with
  | some ty => exact .pure ty
  | none => exact .bind (.report _ place _) fun _ => .onArena _

theorem composed_inferParam (param : Param) :
    Composed Place Scopes.SameOuter (inferParam param) := by
  have ends (ty : Ty) : Composed Place Scopes.SameOuter (do
      bind param.name ty
      keep ty
      pure (({ param with info := { param.info with ty := some ty } } : Param), ty)) :=
    .bind (.modifyScopes fun _ => rfl) fun _ => .bind (.modifyScopes fun _ => rfl) fun _ => .pure _
  obtain ⟨name, declared, info⟩ := param
  cases declared with
  | some written => exact .bind (composed_ofWritten written) ends
  | none => exact .bind (.onArena _) ends

theorem composed_inferParams (params : List Param) :
    Composed Place Scopes.SameOuter (inferParams params) := by
  induction params with
  | nil => exact .pure _
  | cons param rest inductionHypothesis =>
    exact .bind (composed_inferParam param) fun _ => .bind inductionHypothesis fun _ => .pure _

/-! ### Expressions and statements -/

/-- Inference leaves an expression where it stands. -/
theorem inferExpr_place {expr : Expr} (placed : expr.outline.At Place) :
    Always (inferExpr expr) fun result => Place result.1.span := by
  have erased_span (expr : Expr) : expr.erased.span = expr.span := by cases expr <;> rfl
  intro session
  rw [← erased_span, (inferExpr_annotates expr session).2.1, erased_span, ← expr.span_outline]
  exact placed.span

/-- Inference leaves a statement where it stands. -/
theorem inferStmt_place {statement : Stmt} (placed : statement.outline.At Place) :
    Always (inferStmt statement) fun result => Place result.1.span := by
  have erased_span (statement : Stmt) : statement.erased.span = statement.outline.span := by
    match statement with
    | .const _ _ _ _ | .return none _ | .return (some _) _ => rfl
    | .expr value => cases value <;> rfl
  have outline_span (statement : Stmt) : statement.outline.span = statement.span := by
    match statement with
    | .const _ _ _ _ | .return none _ | .return (some _) _ | .expr _ => rfl
  intro session
  rw [← outline_span, ← erased_span, (inferStmt_annotates statement session).2.1, erased_span]
  exact placed.span

/-- The places that are given with the types of arguments are those of the arguments. -/
theorem inferArguments_places {arguments : List Expr}
    (placed : AllAt Place (Expr.outlines arguments)) :
    Always (inferArguments arguments) fun result => ∀ argument ∈ result.2, Place argument.1 := by
  induction arguments with
  | nil => exact .pure (List.forall_mem_nil _)
  | cons head tail inductionHypothesis =>
    obtain ⟨placedHead, placedTail⟩ := allAt_cons.mp placed
    refine .bind (inferExpr_place placedHead) fun head' place => ?_
    refine .bind (inductionHypothesis placedTail) fun tail' places => ?_
    exact .pure (List.forall_mem_cons.mpr ⟨place, places⟩)

/-- What inference does in the scope of an arrow function. -/
def inferInside (params : List Param) (result : Option WrittenType) (body : Body)
    (span : Option Span) : SessionM (List Param × List Ty × Body × Ty) := do
  let (params, paramTys) ← inferParams params
  let (body, bodyTy) ← inferBody body
  let resultTy ← meetDeclared bodyTy result fun written =>
    { span := written.span <|> span, demand := some .declaredResult }
  pure (params, paramTys, body, resultTy)

theorem inferExpr_arrow (params : List Param) (result : Option WrittenType) (body : Body)
    (info : Info) :
    inferExpr (.arrow params result body info) = (do
      let (params, paramTys, body, resultTy) ← inScope (inferInside params result body info.span)
      let resultTy ← compress resultTy
      pure (.arrow params result body (info.typed (.fn paramTys resultTy)),
        .fn paramTys resultTy)) :=
  rfl

theorem composed_inferInside {params : List Param} {result : Option WrittenType} {body : Body}
    {span : Option Span} (inner : Composed Place Scopes.SameOuter (inferBody body))
    (places : ∀ written ∈ result, Place (written.span <|> span)) :
    Composed Place Scopes.SameOuter (inferInside params result body span) := by
  refine .bind (composed_inferParams params) fun _ => .bind inner fun _ => ?_
  exact .bind (composed_meetDeclared _ places) fun _ => .pure _

mutual

/-- Inferring an expression is composed of steps of inference, which report at its places. -/
theorem composed_inferExpr {Change : Scopes → Scopes → Prop} (expr : Expr)
    (placed : expr.outline.At Place) : Composed Place Change (inferExpr expr) := by
  match expr with
  | .number _ _ | .string _ _ | .bool _ _ => exact .pure _
  | .ident name info => exact .bind (composed_inferIdent name placed.span) fun _ => .pure _
  | .binary operator left right info =>
    obtain ⟨place, placedLeft, placedRight⟩ :
        Place info.span ∧ left.outline.At Place ∧ right.outline.At Place := by
      simpa [Expr.outline] using placed
    refine .bind (composed_inferExpr left placedLeft) fun _ => ?_
    refine .bind (composed_inferExpr right placedRight) fun _ => ?_
    exact .bind (composed_solveBinary place operator _ _) fun _ => .pure _
  | .conditional test consequent alternate info =>
    obtain ⟨place, placedTest, placedConsequent, placedAlternate⟩ :
        Place info.span ∧ test.outline.At Place ∧ consequent.outline.At Place ∧
          alternate.outline.At Place := by
      simpa [Expr.outline] using placed
    refine .bindKnowing (composed_inferExpr test placedTest) (inferExpr_place placedTest) ?_
    intro test' placeTest
    refine .bind (composed_unify (place_or place placeTest) _ _) fun _ => ?_
    refine .bindKnowing (composed_inferExpr consequent placedConsequent)
      (inferExpr_place placedConsequent) ?_
    intro consequent' placeConsequent
    refine .bindKnowing (composed_inferExpr alternate placedAlternate)
      (inferExpr_place placedAlternate) ?_
    intro alternate' placeAlternate
    refine .bind (.onArena _) fun _ => ?_
    refine .bind (composed_unify (place_or place placeConsequent) _ _) fun _ => ?_
    exact .bind (composed_unify (place_or place placeAlternate) _ _) fun _ => .pure _
  | .arrow params result body info =>
    obtain ⟨place, placedResult, placedBody⟩ :
        Place info.span ∧ AllAt Place (WrittenType.declaredOutlines result) ∧
          AllAt Place body.outlines := by
      obtain ⟨place, placedParts⟩ := at_node.mp placed
      rw [allAt_append, allAt_append] at placedParts
      exact ⟨place, placedParts.1.2, placedParts.2⟩
    rw [inferExpr_arrow]
    refine .bind (.enclosed (composed_inferInside (composed_inferBody body placedBody) ?_)) fun _ =>
      .bind (.onArena _) fun _ => .pure _
    exact fun written declares => place_or place (WrittenType.place_declared placedResult declares)
  | .call callee arguments info =>
    obtain ⟨place, placedCallee, placedArguments⟩ :
        Place info.span ∧ callee.outline.At Place ∧ AllAt Place (Expr.outlines arguments) := by
      simpa [Expr.outline] using placed
    refine .bind (composed_inferExpr callee placedCallee) fun _ => .bind (.onArena _) fun _ => ?_
    refine .bindKnowing (composed_inferArguments arguments placedArguments)
      (inferArguments_places placedArguments) ?_
    intro arguments' places
    exact .bind (composed_solveCall place _ places) fun _ => .pure _
  | .array [] info => exact .bind (.onArena _) fun _ => .pure _
  | .array (first :: rest) info =>
    obtain ⟨placedFirst, placedRest⟩ := allAt_cons.mp (at_node.mp placed).2
    refine .bind (composed_inferExpr first placedFirst) fun _ => ?_
    exact .bind (composed_inferElements _ rest placedRest) fun _ => .pure _
  | .index object position info =>
    obtain ⟨place, placedObject, placedPosition⟩ :
        Place info.span ∧ object.outline.At Place ∧ position.outline.At Place := by
      simpa [Expr.outline] using placed
    refine .bindKnowing (composed_inferExpr position placedPosition)
      (inferExpr_place placedPosition) ?_
    intro position' placePosition
    refine .bind (composed_unify (place_or place placePosition) _ _) fun _ => ?_
    refine .bindKnowing (composed_inferExpr object placedObject) (inferExpr_place placedObject) ?_
    intro object' placeObject
    exact .bind (composed_solveIndex _ (place_or place placeObject)) fun _ => .pure _

theorem composed_inferArguments {Change : Scopes → Scopes → Prop} (arguments : List Expr)
    (placed : AllAt Place (Expr.outlines arguments)) :
    Composed Place Change (inferArguments arguments) := by
  match arguments with
  | [] => exact .pure _
  | argument :: rest =>
    obtain ⟨placedHead, placedTail⟩ := allAt_cons.mp placed
    refine .bind (composed_inferExpr argument placedHead) fun _ => ?_
    exact .bind (composed_inferArguments rest placedTail) fun _ => .pure _

theorem composed_inferElements {Change : Scopes → Scopes → Prop} (element : Ty)
    (elements : List Expr) (placed : AllAt Place (Expr.outlines elements)) :
    Composed Place Change (inferElements element elements) := by
  match elements with
  | [] => exact .pure _
  | value :: rest =>
    obtain ⟨placedHead, placedTail⟩ := allAt_cons.mp placed
    refine .bindKnowing (composed_inferExpr value placedHead) (inferExpr_place placedHead) ?_
    intro value' place
    refine .bind (composed_unify place _ _) fun _ => ?_
    exact .bind (composed_inferElements element rest placedTail) fun _ => .pure _

theorem composed_inferBody (body : Body) (placed : AllAt Place body.outlines) :
    Composed Place Scopes.SameOuter (inferBody body) := by
  match body with
  | .value value =>
    exact .bind (composed_inferExpr value (allAt_cons.mp placed).1) fun _ => .pure _
  | .block statements => exact .bind (composed_inferBlock statements placed) fun _ => .pure _

theorem composed_inferBlock (statements : List Stmt)
    (placed : AllAt Place (Stmt.outlines statements)) :
    Composed Place Scopes.SameOuter (inferBlock statements) := by
  match statements with
  | [] => exact .pure _
  | statement :: rest =>
    obtain ⟨placedHead, placedTail⟩ := allAt_cons.mp placed
    refine .bindKnowing (composed_inferStmt statement placedHead) (inferStmt_place placedHead) ?_
    intro statement' place
    show Composed Place Scopes.SameOuter (if _ then _ else _)
    split_ifs
    · exact .pure _
    · refine .bind (composed_reportEarlyReturn place) fun _ => ?_
      exact .bind (composed_inferBlock rest placedTail) fun _ => .pure _

theorem composed_inferStmt (statement : Stmt) (placed : statement.outline.At Place) :
    Composed Place Scopes.SameOuter (inferStmt statement) := by
  match statement with
  | .const name declared init info =>
    obtain ⟨place, placedInit⟩ : Place info.span ∧ init.outline.At Place := by
      obtain ⟨place, placedParts⟩ := at_node.mp placed
      exact ⟨place, (allAt_cons.mp (allAt_append.mp placedParts).2).1⟩
    refine .bindKnowing (composed_inferExpr init placedInit) (inferExpr_place placedInit) ?_
    intro init' placeInit
    refine .bind (composed_meetDeclared _ fun _ _ => place_or place placeInit) fun _ => ?_
    exact .bind (.modifyScopes fun _ => rfl) fun _ => .pure _
  | .return (some argument) info =>
    obtain ⟨placedArgument, _⟩ := allAt_cons.mp (at_node.mp placed).2
    exact .bind (composed_inferExpr argument placedArgument) fun _ => .pure _
  | .return none info => exact .pure _
  | .expr value =>
    obtain ⟨placedValue, _⟩ := allAt_cons.mp (at_node.mp placed).2
    exact .bind (composed_inferExpr value placedValue) fun _ => .pure _

end

theorem composed_inferStmts (statements : List Stmt)
    (placed : AllAt Place (Stmt.outlines statements)) :
    Composed Place Scopes.SameOuter (inferStmts statements) := by
  induction statements with
  | nil => exact .pure _
  | cons statement rest inductionHypothesis =>
    obtain ⟨placedHead, placedTail⟩ := allAt_cons.mp placed
    refine .bind (composed_inferStmt statement placedHead) fun _ => ?_
    exact .bind (inductionHypothesis placedTail) fun _ => .pure _

/-! ### Filling slots -/

theorem composed_fillInfo (info : Info) : Composed Place Change (info.mapTy resolve) := by
  rw [Info.mapTy]
  split
  · exact .bind (.onArena _) fun _ => .pure _
  · exact .pure _

theorem composed_fillParams (params : List Param) :
    Composed Place Change (Param.mapTys resolve params) := by
  induction params with
  | nil => exact .pure _
  | cons param rest inductionHypothesis =>
    exact .bind (composed_fillInfo param.info) fun _ => .bind inductionHypothesis fun _ => .pure _

mutual

theorem composed_fillExpr (expr : Expr) : Composed Place Change (expr.mapTys resolve) := by
  match expr with
  | .number _ info | .string _ info | .bool _ info | .ident _ info =>
    exact .bind (composed_fillInfo info) fun _ => .pure _
  | .binary _ left right info | .index left right info =>
    refine .bind (composed_fillInfo info) fun _ => ?_
    exact .bind (composed_fillExpr left) fun _ => .bind (composed_fillExpr right) fun _ => .pure _
  | .conditional test consequent alternate info =>
    refine .bind (composed_fillInfo info) fun _ => .bind (composed_fillExpr test) fun _ => ?_
    refine .bind (composed_fillExpr consequent) fun _ => ?_
    exact .bind (composed_fillExpr alternate) fun _ => .pure _
  | .arrow params _ body info =>
    refine .bind (composed_fillInfo info) fun _ => .bind (composed_fillParams params) fun _ => ?_
    exact .bind (composed_fillBody body) fun _ => .pure _
  | .call callee arguments info =>
    refine .bind (composed_fillInfo info) fun _ => .bind (composed_fillExpr callee) fun _ => ?_
    exact .bind (composed_fillExprs arguments) fun _ => .pure _
  | .array elements info =>
    refine .bind (composed_fillInfo info) fun _ => ?_
    exact .bind (composed_fillExprs elements) fun _ => .pure _

theorem composed_fillExprs (exprs : List Expr) :
    Composed Place Change (Expr.mapTysAll resolve exprs) := by
  match exprs with
  | [] => exact .pure _
  | head :: tail =>
    exact .bind (composed_fillExpr head) fun _ => .bind (composed_fillExprs tail) fun _ => .pure _

theorem composed_fillBody (body : Body) : Composed Place Change (body.mapTys resolve) := by
  match body with
  | .value value => exact .bind (composed_fillExpr value) fun _ => .pure _
  | .block statements => exact .bind (composed_fillStmts statements) fun _ => .pure _

theorem composed_fillStmt (statement : Stmt) :
    Composed Place Change (statement.mapTys resolve) := by
  match statement with
  | .const _ _ init info | .return (some init) info =>
    exact .bind (composed_fillInfo info) fun _ => .bind (composed_fillExpr init) fun _ => .pure _
  | .return none info => exact .bind (composed_fillInfo info) fun _ => .pure _
  | .expr value => exact .bind (composed_fillExpr value) fun _ => .pure _

theorem composed_fillStmts (statements : List Stmt) :
    Composed Place Change (Stmt.mapTysAll resolve statements) := by
  match statements with
  | [] => exact .pure _
  | head :: tail =>
    exact .bind (composed_fillStmt head) fun _ => .bind (composed_fillStmts tail) fun _ => .pure _

end

/-- Filling the slots of a program is composed of steps, none of which reports anything. -/
theorem composed_finalize (program : Program) : Composed Place Change (finalize program) :=
  .bind (composed_fillInfo program.info) fun _ =>
    .bind (composed_fillStmts program.body) fun _ => .pure _

end Session

end ArrowCheck
