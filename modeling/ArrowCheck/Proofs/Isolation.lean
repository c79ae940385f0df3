/-
This file proves that a statement has no influence on unrelated ones. Two programs
that differ in one statement are inferred side by side from that statement on. The
statement may create variables, so the variables of what follows are numbered from
further up in one of the two runs, and it may bind a name, which what follows does
not use. Everything else is the same: the types up to the numbering, and what is
reported up to the wording, however wrong the statement itself may be.
-/

import ArrowCheck.Proofs.Stability
import ArrowCheck.Proofs.TwinSessions

namespace ArrowCheck

open Arena

/-! ### Free names -/

/-- The name that a statement declares, if it does. -/
def Stmt.declares : Stmt → List String
  | .const name _ _ _ => [name]
  | .return _ _ | .expr _ => []

mutual

/-- The names that an expression uses and does not bind itself. -/
def Expr.freeNames : Expr → List String
  | .number _ _ | .string _ _ | .bool _ _ => []
  | .ident name _ => [name]
  | .binary _ left right _ => left.freeNames ++ right.freeNames
  | .conditional test consequent alternate _ =>
    test.freeNames ++ (consequent.freeNames ++ alternate.freeNames)
  | .arrow params _ body _ => body.freeNames.filter (· ∉ params.map Param.name)
  | .call callee arguments _ => callee.freeNames ++ Expr.freeNamesAll arguments
  | .array elements _ => Expr.freeNamesAll elements
  | .index object position _ => object.freeNames ++ position.freeNames

/-- The free names of expressions. -/
def Expr.freeNamesAll : List Expr → List String
  | [] => []
  | head :: tail => head.freeNames ++ Expr.freeNamesAll tail

/-- The free names of the body of an arrow function. -/
def Body.freeNames : Body → List String
  | .value value => value.freeNames
  | .block statements => Stmt.freeNamesAll statements

/-- The free names of a statement. A constant cannot be used where it is initialised. -/
def Stmt.freeNames : Stmt → List String
  | .const _ _ init _ => init.freeNames
  | .return (some argument) _ => argument.freeNames
  | .return none _ => []
  | .expr value => value.freeNames

/-- The free names of statements, each of which declares its name for those after it. -/
def Stmt.freeNamesAll : List Stmt → List String
  | [] => []
  | head :: tail => head.freeNames ++ (Stmt.freeNamesAll tail).filter (· ∉ head.declares)

end

/-- No name of a list is hidden. -/
def Shown (hidden : Set String) (names : List String) : Prop :=
  ∀ name ∈ names, name ∉ hidden

theorem shown_append {hidden : Set String} {first second : List String} :
    Shown hidden (first ++ second) ↔ Shown hidden first ∧ Shown hidden second :=
  List.forall_mem_append

/-- Names that are bound anew are not hidden any more. -/
theorem Shown.of_filter {hidden : Set String} {names bound : List String}
    (shown : Shown hidden (names.filter (· ∉ bound))) :
    Shown (hidden \ {name | name ∈ bound}) names :=
  fun name member ⟨within, unbound⟩ =>
    shown name (List.mem_filter.mpr ⟨member, decide_eq_true unbound⟩) within

/-! ### Slots on both sides -/

theorem Info.span_withTy (change : Ty → Ty) (info : Info) :
    (info.withTy change).span = info.span := by
  obtain ⟨span, ty⟩ := info
  cases ty <;> rfl

theorem Expr.span_withTys (change : Ty → Ty) (expr : Expr) :
    (expr.withTys change).span = expr.span := by
  cases expr <;> exact Info.span_withTy change _

theorem Stmt.span_withTys (change : Ty → Ty) (statement : Stmt) :
    (statement.withTys change).span = statement.span := by
  match statement with
  | .const _ _ _ info | .return none info | .return (some _) info => exact info.span_withTy change
  | .expr value => exact value.span_withTys change

theorem Stmt.isReturn_withTys (change : Ty → Ty) (statement : Stmt) :
    (statement.withTys change).isReturn = statement.isReturn := by
  match statement with
  | .const _ _ _ _ | .return none _ | .return (some _) _ | .expr _ => rfl

/-- All types of a list come from above a gap. -/
def Arena.YoungEach (arena : Arena) (gap : Gap) (tys : List Ty) : Prop :=
  ∀ ty ∈ tys, arena.Young gap ty

theorem Arena.youngEach_append {arena : Arena} {gap : Gap} {first second : List Ty} :
    arena.YoungEach gap (first ++ second) ↔
      arena.YoungEach gap first ∧ arena.YoungEach gap second :=
  List.forall_mem_append

theorem Arena.youngEach_singleton {arena : Arena} {gap : Gap} {ty : Ty} :
    arena.YoungEach gap [ty] ↔ arena.Young gap ty :=
  List.forall_mem_singleton

theorem Session.Along.keepsEach {gap : Gap} {short long short' long' : Session}
    (along : Session.Along short long short' long') {tys : List Ty}
    (young : short.arena.YoungEach gap tys) : short'.arena.YoungEach gap tys :=
  fun ty member => along.keeps (young ty member)

section

variable (gap : Gap)

/-- Inferring the expression does the same on both sides if it uses no hidden name. -/
def Expr.Isolated (expr : Expr) : Prop :=
  ∀ ⦃hidden : Set String⦄ ⦃short long : Session⦄, Session.Twins gap hidden short long →
    Shown hidden expr.freeNames →
    Session.Paired (Session.inferExpr expr) (Session.inferExpr expr) short long
      fun result result' short' long' =>
        Session.Steps gap short long short' long' ∧
          result' = (result.1.withTys (Ty.shift gap), result.2.shift gap) ∧
          short'.arena.Young gap result.2 ∧ short'.arena.YoungEach gap result.1.tys

/-- Inferring the arguments does the same on both sides if they use no hidden name. -/
def Expr.IsolatedAll (arguments : List Expr) : Prop :=
  ∀ ⦃hidden : Set String⦄ ⦃short long : Session⦄, Session.Twins gap hidden short long →
    Shown hidden (Expr.freeNamesAll arguments) →
    Session.Paired (Session.inferArguments arguments) (Session.inferArguments arguments) short long
      fun result result' short' long' =>
        Session.Steps gap short long short' long' ∧
          result' = (Expr.withTysAll (Ty.shift gap) result.1, Session.shiftArguments gap result.2) ∧
          (∀ argument ∈ result.2, short'.arena.Young gap argument.2) ∧
          short'.arena.YoungEach gap (Expr.tysAll result.1)

/-- Inferring the elements does so for corresponding types that they should share. -/
def Expr.IsolatedEach (elements : List Expr) : Prop :=
  ∀ ⦃hidden : Set String⦄ ⦃short long : Session⦄ ⦃element : Ty⦄,
    Session.Twins gap hidden short long → short.arena.Young gap element →
    Shown hidden (Expr.freeNamesAll elements) →
    Session.Paired (Session.inferElements element elements)
      (Session.inferElements (element.shift gap) elements) short long
      fun result result' short' long' =>
        Session.Steps gap short long short' long' ∧
          result' = Expr.withTysAll (Ty.shift gap) result ∧
          short'.arena.YoungEach gap (Expr.tysAll result)

/-- Inferring the body does the same on both sides if it uses no hidden name. -/
def Body.Isolated (body : Body) : Prop :=
  ∀ ⦃hidden : Set String⦄ ⦃short long : Session⦄, Session.Twins gap hidden short long →
    Shown hidden body.freeNames →
    Session.Paired (Session.inferBody body) (Session.inferBody body) short long
      fun result result' short' long' =>
        Session.Along short long short' long' ∧ Session.Abreast gap short' long' ∧
          result' = (result.1.withTys (Ty.shift gap), result.2.shift gap) ∧
          short'.arena.Young gap result.2 ∧ short'.arena.YoungEach gap result.1.tys

/-- Inferring the block does the same on both sides if it uses no hidden name. -/
def Stmt.IsolatedBlock (statements : List Stmt) : Prop :=
  ∀ ⦃hidden : Set String⦄ ⦃short long : Session⦄, Session.Twins gap hidden short long →
    Shown hidden (Stmt.freeNamesAll statements) →
    Session.Paired (Session.inferBlock statements) (Session.inferBlock statements) short long
      fun result result' short' long' =>
        Session.Along short long short' long' ∧ Session.Abreast gap short' long' ∧
          result' = (Stmt.withTysAll (Ty.shift gap) result.1, result.2.shift gap) ∧
          short'.arena.Young gap result.2 ∧ short'.arena.YoungEach gap (Stmt.tysAll result.1)

/-- Inferring the statement does the same on both sides if it uses no hidden name, and shows the
name that it declares. -/
def Stmt.Isolated (statement : Stmt) : Prop :=
  ∀ ⦃hidden : Set String⦄ ⦃short long : Session⦄, Session.Twins gap hidden short long →
    Shown hidden statement.freeNames →
    Session.Paired (Session.inferStmt statement) (Session.inferStmt statement) short long
      fun result result' short' long' =>
        Session.Twins gap (hidden \ {name | name ∈ statement.declares}) short' long' ∧
          Session.Along short long short' long' ∧
          result' = (result.1.withTys (Ty.shift gap), result.2.shift gap) ∧
          short'.arena.Young gap result.2 ∧ short'.arena.YoungEach gap result.1.tys

end

namespace Session

variable {gap : Gap} {hidden : Set String} {short long : Session}

/-! ### Parameters -/

theorem Twins.hide_more {hidden' : Set String} (twins : Twins gap hidden short long)
    (more : hidden ⊆ hidden') : Twins gap hidden' short long :=
  { twins with visible := fun name shown => twins.visible name fun member => shown (more member) }

theorem paramTy_paired (abreast : Abreast gap short long) (declared : Option WrittenType) :
    Paired (match declared with | some written => ofWritten written | none => fresh)
      (match declared with | some written => ofWritten written | none => fresh) short long
      (Gives gap short long) := by
  cases declared with
  | none => exact fresh_paired abreast
  | some written => exact ofWritten_paired written abreast

theorem inferParam_paired (param : Param) (twins : Twins gap hidden short long) :
    Paired (inferParam param) (inferParam param) short long fun result result' short' long' =>
      Twins gap (hidden \ {param.name}) short' long' ∧ Along short long short' long' ∧
        result.1 = { param with info := param.info.typed result.2 } ∧
        result' = ({ param with info := param.info.typed (result.2.shift gap) },
          result.2.shift gap) ∧ short'.arena.Young gap result.2 := by
  obtain ⟨name, declared, info⟩ := param
  have typed := paramTy_paired twins.toAbreast declared
  match declared, typed with
  | none, typed | some _, typed =>
    refine Paired.bind typed fun ty _ _ _ gives => ?_
    rw [gives.same]
    have twins' := ((twins.steps gives.toSteps).bind name gives.young).keep gives.young
    exact ⟨twins', ⟨gives.size_le, gives.reports⟩, rfl, rfl, gives.young⟩

theorem inferParams_paired (params : List Param) (twins : Twins gap hidden short long) :
    Paired (inferParams params) (inferParams params) short long fun result result' short' long' =>
      Twins gap (hidden \ {name | name ∈ params.map Param.name}) short' long' ∧
        Along short long short' long' ∧
        result' = (Param.withTys (Ty.shift gap) result.1, result.2.map (Ty.shift gap)) ∧
        Param.tys result.1 = result.2 ∧ short'.arena.YoungEach gap result.2 := by
  induction params generalizing hidden short long with
  | nil =>
    refine Paired.pure ⟨twins.hide_more fun name member => ⟨member, ?_⟩, .refl short long, rfl, rfl,
      List.forall_mem_nil _⟩
    exact List.not_mem_nil
  | cons param params inductionHypothesis =>
    refine Paired.bind (inferParam_paired param twins) ?_
    intro ⟨_, ty⟩ _ _ _ ⟨twins, along, typed, same, young⟩
    simp only at typed
    subst typed same
    refine Paired.bind (inductionHypothesis twins) ?_
    intro ⟨params', tys⟩ _ _ _ ⟨twins', along', same', slots, youngs⟩
    subst same'
    refine Paired.pure ⟨twins'.hide_more ?_, along.trans along', rfl, ?_,
      List.forall_mem_cons.mpr ⟨along'.keeps young, youngs⟩⟩
    · rintro name ⟨⟨member, other⟩, unbound⟩
      exact ⟨member, fun bound => (List.mem_cons.mp bound).elim other unbound⟩
    · exact congrArg (ty :: ·) slots

/-! ### Expressions -/

theorem isolated_number (value : Binary64) (info : Info) :
    (Expr.number value info).Isolated gap := by
  intro hidden short long twins _
  have young : short.arena.Young gap (if value.isInteger then .number else .float) := by
    split_ifs <;> exact young_prim _
  refine Paired.pure ⟨.refl twins.toAbreast, ?_, young, youngEach_singleton.mpr young⟩
  split_ifs <;> rfl

theorem isolated_string (value : String) (info : Info) :
    (Expr.string value info).Isolated gap := by
  intro hidden short long twins _
  exact Paired.pure ⟨.refl twins.toAbreast, rfl, young_prim _,
    youngEach_singleton.mpr (young_prim _)⟩

theorem isolated_bool (value : Bool) (info : Info) : (Expr.bool value info).Isolated gap := by
  intro hidden short long twins _
  exact Paired.pure ⟨.refl twins.toAbreast, rfl, young_prim _,
    youngEach_singleton.mpr (young_prim _)⟩

theorem isolated_ident (name : String) (info : Info) : (Expr.ident name info).Isolated gap := by
  intro hidden short long twins shown
  refine Paired.bind (inferIdent_paired twins (shown name (List.mem_singleton_self name)) info.span)
    fun ty _ _ _ gives => ?_
  rw [gives.same]
  exact Paired.pure ⟨gives.toSteps, rfl, gives.young, youngEach_singleton.mpr gives.young⟩

theorem isolated_binary (operator : Operator) (info : Info) {left right : Expr}
    (leftIsolated : left.Isolated gap) (rightIsolated : right.Isolated gap) :
    (Expr.binary operator left right info).Isolated gap := by
  intro hidden short long twins shown
  obtain ⟨shownLeft, shownRight⟩ := shown_append.mp shown
  refine Paired.bind (leftIsolated twins shownLeft) ?_
  rintro ⟨left', leftTy⟩ _ _ _ ⟨steps, rfl, young, slots⟩
  refine Paired.bind (rightIsolated (twins.steps steps) shownRight) ?_
  rintro ⟨right', rightTy⟩ _ _ _ ⟨steps', rfl, young', slots'⟩
  have both := steps.trans steps'
  refine Paired.bind (solveBinary_paired both.abreast operator info.span (steps'.keeps young)
    young') fun ty _ _ _ gives => ?_
  rw [gives.same]
  refine Paired.pure ⟨both.trans gives.toSteps, rfl, gives.young, ?_⟩
  rw [Expr.tys, youngEach_append, youngEach_append]
  exact ⟨youngEach_singleton.mpr gives.young, gives.keepsEach (steps'.keepsEach slots),
    gives.keepsEach slots'⟩

theorem isolated_conditional (info : Info) {test consequent alternate : Expr}
    (testIsolated : test.Isolated gap) (consequentIsolated : consequent.Isolated gap)
    (alternateIsolated : alternate.Isolated gap) :
    (Expr.conditional test consequent alternate info).Isolated gap := by
  intro hidden short long twins shown
  obtain ⟨shownTest, shownBranches⟩ := shown_append.mp shown
  obtain ⟨shownConsequent, shownAlternate⟩ := shown_append.mp shownBranches
  refine Paired.bind (testIsolated twins shownTest) ?_
  rintro ⟨test', testTy⟩ _ _ _ ⟨steps, rfl, young, slots⟩
  simp only [Expr.span_withTys]
  refine Paired.bind (unify_paired steps.abreast _ young (young_prim _)) fun _ _ _ _ step => ?_
  have tested := steps.trans step
  refine Paired.bind (consequentIsolated (twins.steps tested) shownConsequent) ?_
  rintro ⟨consequent', consequentTy⟩ _ _ _ ⟨steps', rfl, young', slots'⟩
  have chosen := tested.trans steps'
  refine Paired.bind (alternateIsolated (twins.steps chosen) shownAlternate) ?_
  rintro ⟨alternate', alternateTy⟩ _ _ _ ⟨steps'', rfl, young'', slots''⟩
  have inferred := chosen.trans steps''
  refine Paired.bind (fresh_paired inferred.abreast) fun ty _ _ _ created => ?_
  rw [created.same]
  simp only [Expr.span_withTys]
  refine Paired.bind (unify_paired created.abreast _ (created.keeps (steps''.keeps young'))
    created.young) fun _ _ _ _ meet => ?_
  refine Paired.bind (unify_paired meet.abreast _ (meet.keeps (created.keeps young''))
    (meet.keeps created.young)) fun _ _ _ _ meet' => ?_
  -- What happens after each branch, from the last one backwards.
  have met := meet.trans meet'
  have last := created.toSteps.trans met
  have last' := steps''.trans last
  have last'' := (step.trans steps').trans last'
  have youngTy := met.keeps created.young
  refine Paired.pure ⟨inferred.trans last, rfl, youngTy, ?_⟩
  rw [Expr.tys, youngEach_append, youngEach_append, youngEach_append]
  exact ⟨youngEach_singleton.mpr youngTy, last''.keepsEach slots, last'.keepsEach slots',
    last.keepsEach slots''⟩

/-- Leaving the scope of the function restores what was hidden in it. -/
theorem isolated_arrow (params : List Param) (result : Option WrittenType) (info : Info)
    {body : Body} (bodyIsolated : body.Isolated gap) :
    (Expr.arrow params result body info).Isolated gap := by
  intro hidden short long twins shown
  have inside : Paired (inferExpr (.arrow params result body info))
      (inferExpr (.arrow params result body info)) short long fun found found' short' long' =>
        Along short long short' long' ∧ Abreast gap short' long' ∧
          found' = (found.1.withTys (Ty.shift gap), found.2.shift gap) ∧
          short'.arena.Young gap found.2 ∧ short'.arena.YoungEach gap found.1.tys := by
    refine Paired.modify_bind (Paired.bind (inferParams_paired params twins.push) ?_)
    rintro ⟨params', paramTys⟩ _ _ _ ⟨twins', entered, rfl, held, youngs⟩
    refine Paired.bind (bodyIsolated twins' shown.of_filter) ?_
    rintro ⟨body', bodyTy⟩ _ now now' ⟨along, abreast, rfl, young, slots⟩
    refine Paired.bind (meetDeclared_paired abreast young result _) fun resultTy _ _ _ met => ?_
    rw [met.same]
    refine Paired.modify_bind (Paired.bind (compress_paired (met.abreast.rescope _ _) met.young) ?_)
    rintro head _ after after' ⟨gives, _⟩
    have last : Along now now' after after' := met.toAlong.trans ⟨gives.size_le, gives.reports⟩
    have inner := along.trans last
    have youngTy : after.arena.Young gap (.fn paramTys head) :=
      young_fn.mpr ⟨inner.keepsEach youngs, gives.young⟩
    rw [gives.same, ← Ty.shift_fn]
    have outer : Along short long after after' :=
      Along.trans ⟨entered.size_le, entered.reports⟩ inner
    refine Paired.pure ⟨outer, gives.abreast, rfl, youngTy, ?_⟩
    rw [Expr.tys, held, youngEach_append, youngEach_append]
    exact ⟨youngEach_singleton.mpr youngTy, inner.keepsEach youngs, last.keepsEach slots⟩
  obtain ⟨along, abreast, same, young, slots⟩ := inside
  have restored := (inferExpr_framed (.arrow params result body info) twins.ready).1.scopes
  have restored' := (inferExpr_framed (.arrow params result body info) twins.ready').1.scopes
  exact ⟨⟨along, abreast, restored, restored'⟩, same, young, slots⟩

theorem isolated_call (info : Info) {callee : Expr} {arguments : List Expr}
    (calleeIsolated : callee.Isolated gap) (argumentsIsolated : Expr.IsolatedAll gap arguments) :
    (Expr.call callee arguments info).Isolated gap := by
  intro hidden short long twins shown
  obtain ⟨shownCallee, shownArguments⟩ := shown_append.mp shown
  refine Paired.bind (calleeIsolated twins shownCallee) ?_
  rintro ⟨callee', calleeTy⟩ _ _ _ ⟨steps, rfl, young, slots⟩
  refine Paired.bind (compress_paired steps.abreast young) fun known _ _ _ ⟨head, _⟩ => ?_
  rw [head.same]
  have called := steps.trans head.toSteps
  refine Paired.bind (argumentsIsolated (twins.steps called) shownArguments) ?_
  rintro ⟨arguments', argumentTys⟩ _ _ _ ⟨steps', rfl, youngs, slots'⟩
  have supplied := called.trans steps'
  refine Paired.bind (solveCall_paired supplied.abreast (steps'.keeps head.young) youngs info.span)
    fun ty _ _ _ gives => ?_
  rw [gives.same]
  have last := (head.toSteps.trans steps').trans gives.toSteps
  refine Paired.pure ⟨supplied.trans gives.toSteps, rfl, gives.young, ?_⟩
  rw [Expr.tys, youngEach_append, youngEach_append]
  exact ⟨youngEach_singleton.mpr gives.young, last.keepsEach slots, gives.keepsEach slots'⟩

theorem isolated_array_nil (info : Info) : (Expr.array [] info).Isolated gap := by
  intro hidden short long twins _
  refine Paired.bind (fresh_paired twins.toAbreast) fun element _ _ _ gives => ?_
  rw [gives.same]
  have young := young_array.mpr gives.young
  refine Paired.pure ⟨gives.toSteps, rfl, young, ?_⟩
  rw [Expr.tys, youngEach_append]
  exact ⟨youngEach_singleton.mpr young, List.forall_mem_nil _⟩

theorem isolated_array_cons (info : Info) {head : Expr} {rest : List Expr}
    (headIsolated : head.Isolated gap) (restIsolated : Expr.IsolatedEach gap rest) :
    (Expr.array (head :: rest) info).Isolated gap := by
  intro hidden short long twins shown
  obtain ⟨shownHead, shownRest⟩ := shown_append.mp shown
  refine Paired.bind (headIsolated twins shownHead) ?_
  rintro ⟨head', element⟩ _ _ _ ⟨steps, rfl, young, slots⟩
  refine Paired.bind (restIsolated (twins.steps steps) young shownRest) ?_
  rintro rest' _ _ _ ⟨steps', rfl, slots'⟩
  have youngTy := young_array.mpr (steps'.keeps young)
  refine Paired.pure ⟨steps.trans steps', rfl, youngTy, ?_⟩
  rw [Expr.tys, Expr.tysAll, youngEach_append, youngEach_append]
  exact ⟨youngEach_singleton.mpr youngTy, steps'.keepsEach slots, slots'⟩

theorem isolated_index (info : Info) {object position : Expr} (objectIsolated : object.Isolated gap)
    (positionIsolated : position.Isolated gap) :
    (Expr.index object position info).Isolated gap := by
  intro hidden short long twins shown
  obtain ⟨shownObject, shownPosition⟩ := shown_append.mp shown
  refine Paired.bind (positionIsolated twins shownPosition) ?_
  rintro ⟨position', positionTy⟩ _ _ _ ⟨steps, rfl, young, slots⟩
  simp only [Expr.span_withTys]
  refine Paired.bind (unify_paired steps.abreast _ young (young_prim _)) fun _ _ _ _ step => ?_
  have placed := steps.trans step
  refine Paired.bind (objectIsolated (twins.steps placed) shownObject) ?_
  rintro ⟨object', objectTy⟩ _ _ _ ⟨steps', rfl, young', slots'⟩
  simp only [Expr.span_withTys]
  refine Paired.bind (solveIndex_paired steps'.abreast young' _) fun ty _ _ _ gives => ?_
  rw [gives.same]
  have last := (step.trans steps').trans gives.toSteps
  refine Paired.pure ⟨(placed.trans steps').trans gives.toSteps, rfl, gives.young, ?_⟩
  rw [Expr.tys, youngEach_append, youngEach_append]
  exact ⟨youngEach_singleton.mpr gives.young, gives.keepsEach slots', last.keepsEach slots⟩

theorem isolatedAll_nil : Expr.IsolatedAll gap [] := by
  intro hidden short long twins _
  exact Paired.pure ⟨.refl twins.toAbreast, rfl, List.forall_mem_nil _, List.forall_mem_nil _⟩

theorem isolatedAll_cons {head : Expr} {tail : List Expr} (headIsolated : head.Isolated gap)
    (tailIsolated : Expr.IsolatedAll gap tail) : Expr.IsolatedAll gap (head :: tail) := by
  intro hidden short long twins shown
  obtain ⟨shownHead, shownTail⟩ := shown_append.mp shown
  refine Paired.bind (headIsolated twins shownHead) ?_
  rintro ⟨head', ty⟩ _ _ _ ⟨steps, rfl, young, slots⟩
  refine Paired.bind (tailIsolated (twins.steps steps) shownTail) ?_
  rintro ⟨tail', types⟩ _ _ _ ⟨steps', rfl, youngs, slots'⟩
  simp only [Expr.span_withTys]
  refine Paired.pure ⟨steps.trans steps', rfl,
    List.forall_mem_cons.mpr ⟨steps'.keeps young, youngs⟩, ?_⟩
  rw [Expr.tysAll, youngEach_append]
  exact ⟨steps'.keepsEach slots, slots'⟩

theorem isolatedEach_nil : Expr.IsolatedEach gap [] := by
  intro hidden short long element twins _ _
  exact Paired.pure ⟨.refl twins.toAbreast, rfl, List.forall_mem_nil _⟩

theorem isolatedEach_cons {head : Expr} {tail : List Expr} (headIsolated : head.Isolated gap)
    (tailIsolated : Expr.IsolatedEach gap tail) : Expr.IsolatedEach gap (head :: tail) := by
  intro hidden short long element twins youngElement shown
  obtain ⟨shownHead, shownTail⟩ := shown_append.mp shown
  refine Paired.bind (headIsolated twins shownHead) ?_
  rintro ⟨head', ty⟩ _ _ _ ⟨steps, rfl, young, slots⟩
  simp only [Expr.span_withTys]
  refine Paired.bind (unify_paired steps.abreast _ young (steps.keeps youngElement)) ?_
  intro _ _ _ _ step
  have met := steps.trans step
  refine Paired.bind (tailIsolated (twins.steps met) (met.keeps youngElement) shownTail) ?_
  rintro tail' _ _ _ ⟨steps', rfl, slots'⟩
  refine Paired.pure ⟨met.trans steps', rfl, ?_⟩
  rw [Expr.tysAll, youngEach_append]
  exact ⟨(step.trans steps').keepsEach slots, slots'⟩

/-! ### Bodies and statements -/

theorem isolated_value {value : Expr} (valueIsolated : value.Isolated gap) :
    (Body.value value).Isolated gap := by
  intro hidden short long twins shown
  refine Paired.bind (valueIsolated twins shown) ?_
  rintro ⟨value', ty⟩ _ _ _ ⟨steps, rfl, young, slots⟩
  exact Paired.pure ⟨steps.toAlong, steps.abreast, rfl, young, slots⟩

theorem isolated_block {statements : List Stmt} (isolated : Stmt.IsolatedBlock gap statements) :
    (Body.block statements).Isolated gap := by
  intro hidden short long twins shown
  refine Paired.bind (isolated twins shown) ?_
  rintro ⟨statements', ty⟩ _ _ _ ⟨along, abreast, rfl, young, slots⟩
  exact Paired.pure ⟨along, abreast, rfl, young, slots⟩

theorem isolatedBlock_nil : Stmt.IsolatedBlock gap [] := by
  intro hidden short long twins _
  exact Paired.pure ⟨.refl short long, twins.toAbreast, rfl, young_prim _, List.forall_mem_nil _⟩

theorem isolatedBlock_cons {head : Stmt} {tail : List Stmt} (headIsolated : head.Isolated gap)
    (tailIsolated : Stmt.IsolatedBlock gap tail) : Stmt.IsolatedBlock gap (head :: tail) := by
  intro hidden short long twins shown
  obtain ⟨shownHead, shownTail⟩ := shown_append.mp shown
  refine Paired.bind (headIsolated twins shownHead) ?_
  rintro ⟨head', ty⟩ _ _ _ ⟨twins', along, rfl, young, slots⟩
  show Paired (if _ then _ else _) (if _ then _ else _) _ _ _
  simp only [Stmt.isReturn_withTys]
  split_ifs with last
  · refine Paired.pure ⟨along, twins'.toAbreast, rfl, young, ?_⟩
    rw [Stmt.tysAll, youngEach_append]
    exact ⟨slots, List.forall_mem_nil _⟩
  · refine Paired.bind (reportEarlyReturn_paired twins'.toAbreast (Stmt.isReturn_withTys _ head')
      (Stmt.span_withTys _ head')) fun _ _ _ _ step => ?_
    refine Paired.bind (tailIsolated (twins'.steps step) shownTail.of_filter) ?_
    rintro ⟨tail', result⟩ _ _ _ ⟨along', abreast, rfl, young', slots'⟩
    have onward := step.toAlong.trans along'
    refine Paired.pure ⟨along.trans onward, abreast, rfl, young', ?_⟩
    rw [Stmt.tysAll, youngEach_append]
    exact ⟨onward.keepsEach slots, slots'⟩

theorem isolated_const (name : String) (declared : Option WrittenType) (info : Info) {init : Expr}
    (initIsolated : init.Isolated gap) : (Stmt.const name declared init info).Isolated gap := by
  intro hidden short long twins shown
  refine Paired.bind (initIsolated twins shown) ?_
  rintro ⟨init', initTy⟩ _ _ _ ⟨steps, rfl, young, slots⟩
  simp only [Expr.span_withTys]
  refine Paired.bind (meetDeclared_paired steps.abreast young declared _) fun ty _ _ _ met => ?_
  rw [met.same]
  have both := steps.trans met.toSteps
  have bound := (twins.steps both).bind name met.young
  refine Paired.modify_bind (Paired.pure ⟨bound.hide_more ?_, ⟨both.size_le, both.reports⟩, rfl,
    met.young, ?_⟩)
  · rintro other ⟨member, different⟩
    exact ⟨member, fun declares => different (List.mem_singleton.mp declares)⟩
  · rw [Stmt.tys, youngEach_append]
    exact ⟨youngEach_singleton.mpr met.young, met.keepsEach slots⟩

/-- A statement that declares nothing hides what was hidden before. -/
theorem Twins.undeclared (twins : Twins gap hidden short long) :
    Twins gap (hidden \ {name | name ∈ ([] : List String)}) short long :=
  twins.hide_more fun _ member => ⟨member, List.not_mem_nil⟩

theorem isolated_return_some (info : Info) {argument : Expr}
    (argumentIsolated : argument.Isolated gap) :
    (Stmt.return (some argument) info).Isolated gap := by
  intro hidden short long twins shown
  refine Paired.bind (argumentIsolated twins shown) ?_
  rintro ⟨argument', ty⟩ _ _ _ ⟨steps, rfl, young, slots⟩
  refine Paired.pure ⟨(twins.steps steps).undeclared, steps.toAlong, rfl, young, ?_⟩
  rw [Stmt.tys, youngEach_append]
  exact ⟨youngEach_singleton.mpr young, slots⟩

theorem isolated_return_none (info : Info) : (Stmt.return none info).Isolated gap := by
  intro hidden short long twins _
  exact Paired.pure ⟨twins.undeclared, .refl short long, rfl, young_prim _,
    youngEach_singleton.mpr (young_prim _)⟩

theorem isolated_expr {value : Expr} (valueIsolated : value.Isolated gap) :
    (Stmt.expr value).Isolated gap := by
  intro hidden short long twins shown
  refine Paired.bind (valueIsolated twins shown) ?_
  rintro ⟨value', ty⟩ _ _ _ ⟨steps, rfl, young, slots⟩
  exact Paired.pure ⟨(twins.steps steps).undeclared, steps.toAlong, rfl, young, slots⟩

/-! ### Whole trees -/

mutual

/-- Inference of every expression does the same on both sides. -/
theorem inferExpr_isolated : (expr : Expr) → expr.Isolated gap
  | .number value info => isolated_number value info
  | .string value info => isolated_string value info
  | .bool value info => isolated_bool value info
  | .ident name info => isolated_ident name info
  | .binary operator left right info =>
    isolated_binary operator info (inferExpr_isolated left) (inferExpr_isolated right)
  | .conditional test consequent alternate info =>
    isolated_conditional info (inferExpr_isolated test) (inferExpr_isolated consequent)
      (inferExpr_isolated alternate)
  | .arrow params result body info => isolated_arrow params result info (inferBody_isolated body)
  | .call callee arguments info =>
    isolated_call info (inferExpr_isolated callee) (inferArguments_isolated arguments)
  | .array [] info => isolated_array_nil info
  | .array (head :: rest) info =>
    isolated_array_cons info (inferExpr_isolated head) (inferElements_isolated rest)
  | .index object position info =>
    isolated_index info (inferExpr_isolated object) (inferExpr_isolated position)

theorem inferArguments_isolated : (arguments : List Expr) → Expr.IsolatedAll gap arguments
  | [] => isolatedAll_nil
  | head :: tail => isolatedAll_cons (inferExpr_isolated head) (inferArguments_isolated tail)

theorem inferElements_isolated : (elements : List Expr) → Expr.IsolatedEach gap elements
  | [] => isolatedEach_nil
  | head :: tail => isolatedEach_cons (inferExpr_isolated head) (inferElements_isolated tail)

theorem inferBody_isolated : (body : Body) → body.Isolated gap
  | .value value => isolated_value (inferExpr_isolated value)
  | .block statements => isolated_block (inferBlock_isolated statements)

theorem inferBlock_isolated : (statements : List Stmt) → Stmt.IsolatedBlock gap statements
  | [] => isolatedBlock_nil
  | head :: tail => isolatedBlock_cons (inferStmt_isolated head) (inferBlock_isolated tail)

theorem inferStmt_isolated : (statement : Stmt) → statement.Isolated gap
  | .const name declared init info => isolated_const name declared info (inferExpr_isolated init)
  | .return (some argument) info => isolated_return_some info (inferExpr_isolated argument)
  | .return none info => isolated_return_none info
  | .expr value => isolated_expr (inferExpr_isolated value)

end

theorem inferStmts_paired (statements : List Stmt) (twins : Twins gap hidden short long)
    (shown : Shown hidden (Stmt.freeNamesAll statements)) :
    Paired (inferStmts statements) (inferStmts statements) short long
      fun result result' short' long' =>
        Along short long short' long' ∧ Abreast gap short' long' ∧
          result' = (Stmt.withTysAll (Ty.shift gap) result.1, result.2.map (Ty.shift gap)) ∧
          short'.arena.YoungEach gap (Stmt.tysAll result.1) := by
  induction statements generalizing hidden short long with
  | nil => exact Paired.pure ⟨.refl short long, twins.toAbreast, rfl, List.forall_mem_nil _⟩
  | cons head tail inductionHypothesis =>
    obtain ⟨shownHead, shownTail⟩ := shown_append.mp shown
    refine Paired.bind (inferStmt_isolated head twins shownHead) ?_
    rintro ⟨head', ty⟩ _ _ _ ⟨twins', along, rfl, _, slots⟩
    refine Paired.bind (inductionHypothesis twins' shownTail.of_filter) ?_
    rintro ⟨tail', tys⟩ _ _ _ ⟨along', abreast, rfl, slots'⟩
    refine Paired.pure ⟨along.trans along', abreast, rfl, ?_⟩
    rw [Stmt.tysAll, youngEach_append]
    exact ⟨along'.keepsEach slots, slots'⟩

/-! ### One more statement -/

/-- A statement leaves all names alone but the one that it declares. -/
theorem inferStmt_find? {settled : Set VarId} {session : Session} (ready : session.Ready settled)
    (statement : Stmt) {name : String} (other : name ∉ statement.declares) :
    Ensures (inferStmt statement) session fun _ after =>
      after.scopes.find? name = session.scopes.find? name := by
  match statement with
  | .const declared annotation init info =>
    refine Ensures.bind (inferExpr_framed init ready) ?_
    intro ⟨init', initTy⟩ _ ⟨yields, _⟩
    refine Ensures.bind (meetDeclared_yields (yields.ready ready) yields.apart annotation _) ?_
    intro ty now ⟨met, _⟩
    refine Ensures.modify_bind (Ensures.pure ?_)
    have different : name ≠ declared := fun same => other (List.mem_singleton.mpr same)
    exact (Scopes.find?_bind_other _ different ty).trans (by rw [met.scopes, yields.scopes])
  | .return (some value) info | .expr value =>
    refine Ensures.bind (inferExpr_framed value ready) ?_
    intro ⟨value', ty⟩ _ ⟨yields, _⟩
    exact Ensures.pure (by rw [yields.scopes])
  | .return none info => exact Ensures.pure rfl

/-- The sessions before and after a statement are in step where no type is monomorphic: the gap
holds the variables that the statement creates, and the name that it declares is hidden. -/
theorem twins_of_inferStmt {session : Session} (ready : session.Ready ∅)
    (polymorphic : session.scopes.current.monomorphic = []) (statement : Stmt) {width : Nat}
    (size : (inferStmt statement session).2.arena.size = session.arena.size + width) :
    Twins ⟨session.arena.size, width⟩ {name | name ∈ statement.declares} session
      (inferStmt statement session).2 := by
  have unmoved {ty : Ty} (covers : session.arena.Covers ty) :
      ty.shift ⟨session.arena.size, width⟩ = ty := Ty.shift_eq_self covers
  obtain ⟨continues, _⟩ := inferStmt_framed statement ready
  obtain ⟨extends_, _⟩ := inferStmts_extends_unreached ready polymorphic [statement]
  have arenas : Parallel ⟨session.arena.size, width⟩ session.arena
      (inferStmt statement session).2.arena := by
    refine ⟨ready.wellFormed, continues.ready.wellFormed, le_refl _, size, fun id old => ?_,
      fun id head young _ => ?_⟩
    · have covers : session.arena.Covers (.var id) := covers_var.mpr old
      have same := extends_.solved_eq ready.wellFormed covers
      rw [solved_var, solved_var] at same
      exact ⟨same, fun other => lt_size_of_mem_meaning ready.wellFormed old⟩
    · obtain ⟨above, below⟩ := young_var.mp young
      exact absurd below (Nat.not_lt.mpr above)
  refine ⟨⟨arenas, continues.lossy⟩, ready.covers, continues.ready.covers, ?_, ?_,
    fun name shown => ?_⟩
  · rw [continues.monomorphic, polymorphic, List.map_nil]
  · rw [polymorphic]
    exact List.forall_mem_nil _
  · rw [inferStmt_find? ready statement shown]
    cases found : session.scopes.find? name with
    | none => rfl
    | some ty =>
      rw [Option.map_some, unmoved (ready.covers ty (Scopes.mem_tys_of_find? found))]

/-- Inference of a program fills the slots of its first statements with what their types stand for
when the last of these statements was inferred. -/
theorem infer_append_body (first second : List Stmt) (info : Info) (lossy : Bool) :
    let reached := inferStmts first (new lossy)
    let ended := inferStmts second reached.2
    let result := (infer ⟨first ++ second, info⟩ (new lossy)).1
    result.1.body = Stmt.withTysAll reached.2.arena.solved reached.1.1 ++
        Stmt.withTysAll ended.2.arena.solved ended.1.1 ∧
      result.2.diagnostics = ended.2.diagnostics := by
  intro reached ended result
  have ready := new_ready lossy
  obtain ⟨continues, _, covers⟩ := inferStmts_continues first ready
  obtain ⟨extends_, _⟩ :=
    inferStmts_extends_unreached continues.ready continues.monomorphic second
  obtain ⟨statements, tys, now, ran, _, _, typed, reported⟩ :=
    infer_ensures ready ⟨first ++ second, info⟩
  rw [inferStmts_append] at ran
  obtain ⟨same, rfl⟩ := Prod.mk.inj ran
  obtain ⟨rfl, rfl⟩ := Prod.mk.inj same
  refine ⟨?_, reported⟩
  rw [typed, Stmt.withTysAll_eq_map, List.map_append, ← Stmt.withTysAll_eq_map,
    ← Stmt.withTysAll_eq_map]
  refine congrArg (· ++ _) (Stmt.withTysAll_congr fun ty member => ?_)
  exact extends_.solved_eq continues.ready.wellFormed (covers ty member)

/-- The same with one more statement between the first and the last ones. -/
theorem infer_insert_body (before after : List Stmt) (statement : Stmt) (info : Info)
    (lossy : Bool) :
    let reached := inferStmts before (new lossy)
    let passed := inferStmt statement reached.2
    let ended := inferStmts after passed.2
    let result := (infer ⟨before ++ [statement] ++ after, info⟩ (new lossy)).1
    result.1.body = Stmt.withTysAll reached.2.arena.solved reached.1.1 ++
        passed.1.1.withTys ended.2.arena.solved ::
          Stmt.withTysAll ended.2.arena.solved ended.1.1 ∧
      result.2.diagnostics = ended.2.diagnostics := by
  rw [List.append_assoc, List.singleton_append]
  exact infer_append_body before (statement :: after) info lossy

theorem length_withTysAll (change : Ty → Ty) (statements : List Stmt) :
    (Stmt.withTysAll change statements).length = statements.length := by
  rw [Stmt.withTysAll_eq_map, List.length_map]

/-- Corresponding trees are filled with corresponding meanings. -/
theorem Abreast.withTysAll_solved (abreast : Abreast gap short long) {statements : List Stmt}
    (young : short.arena.YoungEach gap (Stmt.tysAll statements)) :
    Stmt.withTysAll long.arena.solved (Stmt.withTysAll (Ty.shift gap) statements) =
      Stmt.withTysAll (Ty.shift gap) (Stmt.withTysAll short.arena.solved statements) := by
  rw [Stmt.withTysAll_withTysAll, Stmt.withTysAll_withTysAll]
  exact Stmt.withTysAll_congr fun ty member => abreast.arenas.solved (young ty member).covers

/-- A program, and the same program with one more statement somewhere, whose name, if it declares
one, is not used by what follows. From new sessions, inference annotates what comes before the
statement in the same way. It annotates what follows in the same way too, except that the variables
which were created later are numbered from further up, by as many as the statement creates. And it
reports the same about what follows, up to the wording. -/
theorem infer_insert_isolated (before after : List Stmt) (statement : Stmt) (info info' : Info)
    (lossy : Bool) (unused : ∀ name ∈ statement.declares, name ∉ Stmt.freeNamesAll after) :
    let reached := (inferStmts before (new lossy)).2
    let passed := (inferStmt statement reached).2
    let short := (infer ⟨before ++ after, info⟩ (new lossy)).1
    let long := (infer ⟨before ++ [statement] ++ after, info'⟩ (new lossy)).1
    ∃ width, passed.arena.size = reached.arena.size + width ∧
      short.1.body.length = before.length + after.length ∧
      long.1.body.length = before.length + 1 + after.length ∧
      long.1.body.take before.length = short.1.body.take before.length ∧
      long.1.body.drop (before.length + 1) =
        Stmt.withTysAll (Ty.shift ⟨reached.arena.size, width⟩)
          (short.1.body.drop before.length) ∧
      ∃ added added', short.2.diagnostics = reached.diagnostics ++ added ∧
        long.2.diagnostics = passed.diagnostics ++ added' ∧
        List.Forall₂ Diagnostic.Alike added added' := by
  intro reached passed short long
  obtain ⟨continues, _⟩ := inferStmts_continues before (new_ready lossy)
  obtain ⟨extends_, _⟩ :=
    inferStmts_extends_unreached continues.ready continues.monomorphic [statement]
  obtain ⟨width, size⟩ : ∃ width, passed.arena.size = reached.arena.size + width :=
    Nat.exists_eq_add_of_le extends_.size_le
  have twins := twins_of_inferStmt continues.ready continues.monomorphic statement size
  obtain ⟨along, abreast, same, young⟩ := inferStmts_paired after twins
    fun name member declares => unused name declares member
  obtain ⟨added, added', appended, appended', alike⟩ := along.reports
  -- The bodies of both programs begin with what comes before the statement.
  obtain ⟨shortBody, shortReports⟩ := infer_append_body before after info lossy
  obtain ⟨longBody, longReports⟩ := infer_insert_body before after statement info' lossy
  rw [same, abreast.withTysAll_solved young] at longBody
  have length := length_withTysAll reached.arena.solved (inferStmts before (new lossy)).1.1
  rw [length_inferStmts] at length
  refine ⟨width, size, ?_, ?_, ?_, ?_, added, added', shortReports.trans appended,
    longReports.trans appended', alike⟩
  · rw [shortBody, List.length_append, length, length_withTysAll, length_inferStmts]
  · rw [longBody, List.length_append, List.length_cons, length, length_withTysAll,
      length_withTysAll, length_inferStmts]
    omega
  · rw [longBody, shortBody, List.take_left' length, List.take_left' length]
  · rw [longBody, shortBody, List.drop_left' length, ← List.drop_drop, List.drop_left' length,
      List.drop_one, List.tail_cons]

/-- A function that gives back its argument. -/
def sameFunction : Stmt :=
  .const "same" none (.arrow [{ name := "a" }] none (.value (.ident "a" {})) {}) {}

/-- A constant whose value is the sum of a truth value and a text. -/
def failingSum : Stmt :=
  .const "sum" none
    (.binary .add (.call (.ident "same" {}) [.bool true {}] {}) (.string "" {}) {}) {}

/-- A function that calls its argument, and a name that is not bound. -/
def laterUses : List Stmt :=
  [.expr (.arrow [{ name := "b" }] none (.value (.call (.ident "b" {}) [] {})) {}),
    .expr (.ident "missing" {})]

/-- The sum is refused and creates one variable, by which the types of the later statements move. -/
theorem infer_insert_failingSum :
    (∀ name ∈ failingSum.declares, name ∉ Stmt.freeNamesAll laterUses) ∧
      (infer ⟨[sameFunction] ++ [failingSum] ++ laterUses, {}⟩ (new false)).1.1.body.drop 2 =
        Stmt.withTysAll (Ty.shift ⟨1, 1⟩)
          ((infer ⟨[sameFunction] ++ laterUses, {}⟩ (new false)).1.1.body.drop 1) := by
  have unused : ∀ name ∈ failingSum.declares, name ∉ Stmt.freeNamesAll laterUses := by decide
  have start : (inferStmts [sameFunction] (new false)).2.arena.size = 1 := by decide +kernel
  have size :
      (inferStmt failingSum (inferStmts [sameFunction] (new false)).2).2.arena.size = 2 := by
    decide +kernel
  obtain ⟨width, created, _, _, _, moved, _⟩ :=
    infer_insert_isolated [sameFunction] laterUses failingSum {} {} false unused
  rw [start] at created moved
  rw [size] at created
  obtain rfl : width = 1 := by omega
  exact ⟨unused, moved⟩

end Session

end ArrowCheck
