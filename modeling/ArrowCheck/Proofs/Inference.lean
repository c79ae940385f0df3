/-
This file describes what inference does to a session, whatever the tree. Like the
operations that it is made of, inference leaves alone the free variables that the
monomorphic types of the innermost scope cannot reach. The description of each
rule also says what the types of its parts are to each other if nothing was
reported.
-/

import ArrowCheck.Proofs.Sessions
import ArrowCheck.Proofs.Slots
import ArrowCheck.Typing.Infer

namespace ArrowCheck

open Arena

/-- The scopes in which the parameters of a function are bound. -/
def Scopes.enter (scopes : Scopes) : List Param → List Ty → Scopes
  | param :: params, ty :: tys => enter ((scopes.bind param.name ty).keep ty) params tys
  | _, _ => scopes

theorem Scopes.outer_enter (params : List Param) (tys : List Ty) (scopes : Scopes) :
    (scopes.enter params tys).outer = scopes.outer := by
  fun_induction enter scopes params tys with
  | case1 scopes param params ty tys inductionHypothesis => exact inductionHypothesis
  | case2 => rfl

theorem Scopes.pop_eq {scopes before : Scopes}
    (outer : scopes.outer = before.current :: before.outer) : scopes.pop = before := by
  rw [pop, outer]

/-- The slots of parameters hold their types. -/
theorem Param.Elaborates.tys_eq {params typed : List Param} {tys : List Ty}
    (elaborates : Param.Elaborates params typed tys) : Param.tys typed = tys := by
  induction elaborates with
  | nil => rfl
  | cons _ _ inductionHypothesis =>
    rw [Param.tys, List.flatMap_cons, ← Param.tys, inductionHypothesis]
    rfl

namespace Session

variable {settled : Set VarId} {before middle after session : Session}

/-! ### Operators -/

theorem requireNumbers_advances (ready : session.Ready settled) (span : Option Span)
    {left right : Ty} (apart : session.arena.Apart settled left)
    (apart' : session.arena.Apart settled right) :
    Ensures (requireNumbers left right span) session fun _ after =>
      session.Advances settled after ∧ (after.diagnostics = [] →
        after.arena.solved left = .number ∧ after.arena.solved right = .number) := by
  refine Ensures.bind (unify_advances ready _ apart (apart_prim _)) ?_
  intro _ middle ⟨advances, equal⟩
  refine Ensures.bind (unify_advances (advances.ready ready) _ (advances.keeps apart')
    (apart_prim _)) ?_
  intro _ after ⟨advances', equal'⟩
  refine Ensures.pure ⟨advances.trans advances', fun silent => ⟨?_, equal' silent⟩⟩
  exact advances'.extends_.solved_congr (equal (advances'.silent silent))

theorem requireNumbers_types (ready : session.Ready settled) (span : Option Span)
    {left right : Ty} (apart : session.arena.Apart settled left)
    (apart' : session.arena.Apart settled right) {operator : Operator} {result : Primitive}
    (types : operator.Types .number .number (.prim result)) :
    Ensures (do requireNumbers left right span; pure (.prim result)) session fun ty after =>
      session.Yields settled ty after ∧ (after.diagnostics = [] →
        operator.Types (after.arena.solved left) (after.arena.solved right)
          (after.arena.solved ty)) := by
  refine Ensures.bind (requireNumbers_advances ready span apart apart') ?_
  intro _ after ⟨advances, numbers⟩
  refine Ensures.pure ⟨⟨advances, apart_prim _⟩, fun silent => ?_⟩
  rw [(numbers silent).1, (numbers silent).2]
  exact types

theorem solveAdd_yields (ready : session.Ready settled) (span : Option Span) {left right : Ty}
    (apart : session.arena.Apart settled left) (apart' : session.arena.Apart settled right) :
    Ensures (solveAdd left right span) session fun ty after =>
      session.Yields settled ty after ∧ (after.diagnostics = [] →
        Operator.Types .add (after.arena.solved left) (after.arena.solved right)
          (after.arena.solved ty)) := by
  refine Ensures.bind (compress_yields ready apart) fun left' middle ⟨yields, same⟩ => ?_
  refine Ensures.bind (compress_yields (yields.ready ready) (yields.keeps apart')) ?_
  intro right' middle' ⟨yields', same'⟩
  have advances := yields.toAdvances.trans yields'.toAdvances
  have ready' := advances.ready ready
  by_cases string : left' = .string <;> by_cases string' : right' = .string <;>
    simp only [string, string', decide_true, decide_false]
  · refine Ensures.pure ⟨⟨advances, apart_prim _⟩, fun _ => ?_⟩
    rw [string] at same
    rw [string'] at same'
    rw [← advances.extends_.solved_congr same, ← yields'.extends_.solved_congr same']
    exact .join
  · refine Ensures.bind (report_advances ready' _ _) fun _ after ⟨step, loud⟩ => ?_
    exact Ensures.pure ⟨⟨advances.trans step, apart_prim _⟩, fun silent => absurd silent loud⟩
  · refine Ensures.bind (report_advances ready' _ _) fun _ after ⟨step, loud⟩ => ?_
    exact Ensures.pure ⟨⟨advances.trans step, apart_prim _⟩, fun silent => absurd silent loud⟩
  · refine (requireNumbers_types ready' span (advances.keeps apart) (advances.keeps apart')
      .sum).mono fun ty after ⟨last, types⟩ => ?_
    exact ⟨advances.yields last, types⟩

theorem solveBinary_yields (ready : session.Ready settled) (operator : Operator)
    (span : Option Span) {left right : Ty} (apart : session.arena.Apart settled left)
    (apart' : session.arena.Apart settled right) :
    Ensures (solveBinary operator left right span) session fun ty after =>
      session.Yields settled ty after ∧ (after.diagnostics = [] →
        operator.Types (after.arena.solved left) (after.arena.solved right)
          (after.arena.solved ty)) := by
  match operator with
  | .add => exact solveAdd_yields ready span apart apart'
  | .sub | .mul | .div =>
    exact requireNumbers_types ready span apart apart' (.arithmetic (by decide))
  | .greater | .less | .greaterEqual | .lessEqual =>
    exact requireNumbers_types ready span apart apart' (.comparison (by decide))
  | .equal | .unequal =>
    refine Ensures.bind (unify_advances ready _ apart apart') fun _ after ⟨advances, equal⟩ => ?_
    refine Ensures.pure ⟨⟨advances, apart_prim _⟩, fun silent => ?_⟩
    rw [equal silent]
    exact .equality (by decide) _
  | .mod | .strictEqual | .strictUnequal | .and | .or =>
    refine (report_fresh_yields ready _ span).mono fun ty after ⟨yields, loud⟩ => ?_
    exact ⟨yields, fun silent => absurd silent loud⟩

/-! ### Names, declared types, calls and indices -/

theorem inferIdent_yields (ready : session.Ready settled) (name : String) (span : Option Span) :
    Ensures (inferIdent name span) session fun ty after =>
      session.Yields settled ty after ∧ (after.diagnostics = [] →
        ∃ stored, session.scopes.find? name = some stored ∧
          session.Instantiates stored ty after) := by
  refine Ensures.bind (lookup_yields ready name) fun found middle spec => ?_
  match found, spec with
  | some ty, ⟨yields, instantiates⟩ => exact Ensures.pure ⟨yields, fun _ => instantiates⟩
  | none, same =>
    subst same
    refine (report_fresh_yields ready _ span).mono fun ty after ⟨yields, loud⟩ => ?_
    exact ⟨yields, fun silent => absurd silent loud⟩

theorem meetDeclared_yields (ready : session.Ready settled) {inferred : Ty}
    (apart : session.arena.Apart settled inferred) (declared : Option WrittenType)
    (site : WrittenType → Site) :
    Ensures (meetDeclared inferred declared site) session fun ty after =>
      session.Yields settled ty after ∧ Declared declared ty ∧ (after.diagnostics = [] →
        after.arena.solved inferred = after.arena.solved ty) := by
  cases declared with
  | none => exact Ensures.pure ⟨⟨.refl ready, apart⟩, declared_none _, fun _ => rfl⟩
  | some written =>
    refine Ensures.bind (ofWritten_yields written ready) ?_
    rintro ty middle ⟨yields, denotes⟩
    refine Ensures.bind (unify_advances (yields.ready ready) _ (yields.keeps apart)
      yields.apart) ?_
    rintro _ after ⟨advances, equal⟩
    exact Ensures.pure ⟨⟨yields.toAdvances.trans advances, advances.keeps yields.apart⟩,
      denotes.declared, equal⟩

theorem unifyArguments_advances (span : Option Span) {session : Session}
    (ready : session.Ready settled) (position : Nat) (arguments : List (Option Span × Ty))
    (params : List Ty)
    (apart : ∀ argument ∈ arguments, session.arena.Apart settled argument.2)
    (apart' : ∀ param ∈ params, session.arena.Apart settled param)
    (sameLength : params.length = arguments.length) :
    Ensures (unifyArguments span position arguments params) session fun _ after =>
      session.Advances settled after ∧ (after.diagnostics = [] →
        params.map after.arena.solved =
          (arguments.map Prod.snd).map after.arena.solved) := by
  induction arguments generalizing session position params with
  | nil =>
    rw [List.eq_nil_of_length_eq_zero sameLength]
    exact Ensures.pure ⟨.refl ready, fun _ => rfl⟩
  | cons argument arguments inductionHypothesis =>
    obtain _ | ⟨param, params⟩ := params
    · cases sameLength
    obtain ⟨apart, apartRest⟩ := List.forall_mem_cons.mp apart
    obtain ⟨apart', apartRest'⟩ := List.forall_mem_cons.mp apart'
    refine Ensures.bind (unify_advances ready _ apart apart') fun _ middle ⟨step, equal⟩ => ?_
    refine (inductionHypothesis (step.ready ready) (position + 1) params
      (fun other member => step.keeps (apartRest other member))
      (fun other member => step.keeps (apartRest' other member))
      (Nat.succ.inj sameLength)).mono fun _ after ⟨advances, equalRest⟩ => ?_
    refine ⟨step.trans advances, fun silent => ?_⟩
    simp only [List.map_cons]
    rw [equalRest silent, advances.extends_.solved_congr (equal (advances.silent silent))]

theorem refuseCallee_yields (ready : session.Ready settled) {callee : Ty}
    (covers : session.arena.Covers callee) (span : Option Span) :
    Ensures (do
        let shown ← resolve callee
        report (.notFunction shown) span
        fresh) session fun ty after =>
      session.Yields settled ty after ∧ after.diagnostics ≠ [] := by
  refine Ensures.bind (resolve_advances ready covers) fun _ middle ⟨advances, _⟩ => ?_
  refine (report_fresh_yields (advances.ready ready) _ span).mono fun ty after ⟨yields, loud⟩ => ?_
  exact ⟨advances.yields yields, loud⟩

theorem solveCall_yields (ready : session.Ready settled) {callee : Ty}
    {arguments : List (Option Span × Ty)} (apart : session.arena.Apart settled callee)
    (apart' : ∀ argument ∈ arguments, session.arena.Apart settled argument.2)
    (span : Option Span) :
    Ensures (solveCall callee arguments span) session fun ty after =>
      session.Yields settled ty after ∧ (after.diagnostics = [] →
        after.arena.solved callee =
          after.arena.solved (.fn (arguments.map Prod.snd) ty)) := by
  match callee with
  | .var id =>
    refine Ensures.bind (fresh_yields ready) fun result middle yields => ?_
    have built : middle.arena.Apart settled (.fn (arguments.map Prod.snd) result) :=
      apart_fn.mpr ⟨List.forall_mem_map.mpr fun argument member =>
        yields.keeps (apart' argument member), yields.apart⟩
    refine Ensures.bind (unify_advances (yields.ready ready) _ (yields.keeps apart) built) ?_
    intro _ after ⟨advances, equal⟩
    exact Ensures.pure ⟨⟨yields.toAdvances.trans advances, advances.keeps yields.apart⟩, equal⟩
  | .fn params result =>
    obtain ⟨apartParams, apartResult⟩ := apart_fn.mp apart
    rw [solveCall]
    split_ifs with sameLength
    · refine Ensures.bind (unifyArguments_advances span ready 1 arguments params apart' apartParams
        sameLength) fun _ after ⟨advances, equal⟩ => ?_
      refine Ensures.pure ⟨⟨advances, advances.keeps apartResult⟩, fun silent => ?_⟩
      rw [solved_fn, solved_fn, equal silent]
    · refine Ensures.bind (report_advances ready _ _) fun _ after ⟨advances, loud⟩ => ?_
      exact Ensures.pure ⟨⟨advances, advances.keeps apartResult⟩,
        fun silent => absurd silent loud⟩
  | .prim _ | .array _ =>
    refine (refuseCallee_yields ready apart.covers span).mono fun ty after ⟨yields, loud⟩ => ?_
    exact ⟨yields, fun silent => absurd silent loud⟩

theorem unifyElement_yields (ready : session.Ready settled) {object : Ty}
    (apart : session.arena.Apart settled object) (site : Site) :
    Ensures (do
        let element ← fresh
        let _ ← unify site object (.array element)
        pure element) session fun ty after =>
      session.Yields settled ty after ∧ (after.diagnostics = [] →
        after.arena.solved object = after.arena.solved (.array ty)) := by
  refine Ensures.bind (fresh_yields ready) fun element middle yields => ?_
  refine Ensures.bind (unify_advances (yields.ready ready) _ (yields.keeps apart)
    (apart_array.mpr yields.apart)) fun _ after ⟨advances, equal⟩ => ?_
  exact Ensures.pure ⟨⟨yields.toAdvances.trans advances, advances.keeps yields.apart⟩, equal⟩

theorem solveIndex_yields (ready : session.Ready settled) {object : Ty}
    (apart : session.arena.Apart settled object) (site : Site) :
    Ensures (solveIndex object site) session fun ty after =>
      session.Yields settled ty after ∧ (after.diagnostics = [] →
        after.arena.solved object = after.arena.solved (.array ty)) := by
  refine Ensures.bind (compress_yields ready apart) fun head middle ⟨yields, same⟩ => ?_
  match head with
  | .array element =>
    refine Ensures.pure ⟨⟨yields.toAdvances, apart_array.mp yields.apart⟩, fun _ => ?_⟩
    exact (yields.extends_.solved_congr same).symm
  | .var _ | .prim _ | .fn _ _ =>
    refine (unifyElement_yields (yields.ready ready) yields.apart site).mono ?_
    intro ty after ⟨last, equal⟩
    have advances := yields.toAdvances.trans last.toAdvances
    refine ⟨yields.toAdvances.yields last, fun silent => ?_⟩
    rw [← equal silent]
    exact (advances.extends_.solved_congr same).symm

/-! ### Statements and parameters -/

/-- What statements do to a session: they may bind names in the innermost scope. -/
structure Continues (settled : Set VarId) (before after : Session) : Prop where
  ready : after.Ready settled
  extends_ : before.arena.Extends settled after.arena
  reports : before.diagnostics <+: after.diagnostics
  outer : after.scopes.outer = before.scopes.outer
  monomorphic : after.scopes.current.monomorphic = before.scopes.current.monomorphic
  lossy : after.lossy = before.lossy

theorem Advances.continues (advances : before.Advances settled after)
    (ready : before.Ready settled) : before.Continues settled after :=
  ⟨advances.ready ready, advances.extends_, advances.reports, by rw [advances.scopes],
    by rw [advances.scopes], advances.lossy⟩

theorem Continues.trans (first : before.Continues settled middle)
    (second : middle.Continues settled after) : before.Continues settled after :=
  ⟨second.ready, first.extends_.trans second.extends_, first.reports.trans second.reports,
    second.outer.trans first.outer, second.monomorphic.trans first.monomorphic,
    second.lossy.trans first.lossy⟩

theorem Continues.silent (continues : before.Continues settled after)
    (silent : after.diagnostics = []) : before.diagnostics = [] := by
  have reports := continues.reports
  rw [silent] at reports
  exact List.prefix_nil.mp reports

theorem Ready.bind (ready : session.Ready settled) {ty : Ty} (covers : session.arena.Covers ty)
    (name : String) : Ready settled { session with scopes := session.scopes.bind name ty } :=
  ⟨ready.wellFormed, ready.settles, Scopes.forall_mem_bind ready.covers covers, ready.avoids⟩

theorem Ready.keep (ready : session.Ready settled) {ty : Ty}
    (apart : session.arena.Apart settled ty) :
    Ready settled { session with scopes := session.scopes.keep ty } where
  wellFormed := ready.wellFormed
  settles := ready.settles
  covers := Scopes.forall_mem_keep ready.covers apart.covers
  avoids := List.forall_mem_append.mpr
    ⟨ready.avoids, List.forall_mem_singleton.mpr apart.avoids⟩

theorem Ready.push (ready : session.Ready settled) :
    Ready settled { session with scopes := session.scopes.push } :=
  ⟨ready.wellFormed, ready.settles, Scopes.forall_mem_push ready.covers, ready.avoids⟩

theorem paramTy_yields (ready : session.Ready settled) (declared : Option WrittenType) :
    Ensures
      (match declared with
        | some written => ofWritten written
        | none => fresh) session
      fun ty after => session.Yields settled ty after ∧ Declared declared ty := by
  cases declared with
  | none => exact (fresh_yields ready).mono fun ty after yields => ⟨yields, declared_none ty⟩
  | some written =>
    refine (ofWritten_yields written ready).mono ?_
    rintro ty after ⟨yields, denotes⟩
    exact ⟨yields, denotes.declared⟩

theorem inferParam_ensures (ready : session.Ready settled) (param : Param) :
    Ensures (inferParam param) session fun result after =>
      ∃ created, session.Yields settled result.2 created ∧
        after = { created with
          scopes := (session.scopes.bind param.name result.2).keep result.2 } ∧
        Declared param.declared result.2 ∧
        result.1 = { param with info := param.info.typed result.2 } := by
  obtain ⟨name, declared, info⟩ := param
  have typed := paramTy_yields ready declared
  match declared, typed with
  | none, typed | some _, typed =>
    refine Ensures.bind typed fun ty created ⟨yields, agrees⟩ => ?_
    refine Ensures.modify_bind (Ensures.modify_bind (Ensures.pure ?_))
    refine ⟨created, yields, ?_, agrees, rfl⟩
    rw [← yields.scopes]

theorem inferParams_ensures (params : List Param) {session : Session}
    (ready : session.Ready settled) :
    Ensures (inferParams params) session fun result after =>
      after.Ready settled ∧ session.arena.Extends settled after.arena ∧
        session.diagnostics <+: after.diagnostics ∧
        after.scopes = session.scopes.enter params result.2 ∧
        (∀ ty ∈ result.2, after.arena.Apart settled ty) ∧
        Param.Elaborates params result.1 result.2 := by
  induction params generalizing session with
  | nil =>
    exact Ensures.pure ⟨ready, .refl ready.wellFormed ready.settles, List.prefix_rfl, rfl,
      List.forall_mem_nil _, .nil⟩
  | cons param params inductionHypothesis =>
    refine Ensures.bind (inferParam_ensures ready param) ?_
    intro ⟨_, ty⟩ _ ⟨created, yields, same, declared, typed⟩
    simp only at yields same declared typed
    subst same typed
    have ready' := ((yields.ready ready).bind yields.apart.covers param.name).keep yields.apart
    rw [yields.scopes] at ready'
    refine Ensures.bind (inductionHypothesis ready') ?_
    intro ⟨typed, tys⟩ after ⟨ready, extends_, reports, scopes, apart, elaborates⟩
    refine Ensures.pure ⟨ready, yields.extends_.trans extends_, yields.reports.trans reports,
      scopes, ?_, .cons declared elaborates⟩
    exact List.forall_mem_cons.mpr ⟨extends_.keeps yields.apart, apart⟩

theorem inferParams_lossy (params : List Param) {session : Session}
    (ready : session.Ready settled) :
    Ensures (inferParams params) session fun _ after => after.lossy = session.lossy := by
  induction params generalizing session with
  | nil => exact Ensures.pure rfl
  | cons param params inductionHypothesis =>
    refine Ensures.bind (inferParam_ensures ready param) ?_
    intro ⟨_, ty⟩ _ ⟨created, yields, same, _, _⟩
    simp only at yields same
    subst same
    have ready' := ((yields.ready ready).bind yields.apart.covers param.name).keep yields.apart
    rw [yields.scopes] at ready'
    refine Ensures.bind (inductionHypothesis ready') fun _ after lossy => Ensures.pure ?_
    exact lossy.trans yields.lossy

theorem reportEarlyReturn_advances (ready : session.Ready settled) (statement : Stmt) :
    Ensures (reportEarlyReturn statement) session fun _ after =>
      session.Advances settled after ∧
        (after.diagnostics = [] → statement.isReturn = false) := by
  rw [reportEarlyReturn]
  split_ifs with returns
  · refine (report_advances ready _ _).mono fun _ after ⟨advances, loud⟩ => ?_
    exact ⟨advances, fun silent => absurd silent loud⟩
  · exact Ensures.pure ⟨.refl ready, fun _ => Bool.eq_false_of_not_eq_true returns⟩

end Session

/-! ### What inference does, by kind of tree -/

section

variable (settled : Set VarId)

/-- Inferring the expression gives a type apart from the variables that are left alone, and fills
the slots of the tree with types that mention only variables that exist. -/
def Expr.Framed (expr : Expr) : Prop :=
  ∀ ⦃session : Session⦄, session.Ready settled →
    Ensures (Session.inferExpr expr) session fun result after =>
      session.Yields settled result.2 after ∧ after.arena.CoversEach result.1.tys

/-- Inferring the arguments does what inferring each of them does. -/
def Expr.FramedAll (arguments : List Expr) : Prop :=
  ∀ ⦃session : Session⦄, session.Ready settled →
    Ensures (Session.inferArguments arguments) session fun result after =>
      session.Advances settled after ∧
        (∀ argument ∈ result.2, after.arena.Apart settled argument.2) ∧
        after.arena.CoversEach (Expr.tysAll result.1)

/-- Inferring the elements does so for every type that they should share. -/
def Expr.FramedEach (elements : List Expr) : Prop :=
  ∀ ⦃session : Session⦄ ⦃element : Ty⦄, session.Ready settled →
    session.arena.Apart settled element →
    Ensures (Session.inferElements element elements) session fun result after =>
      session.Advances settled after ∧ after.arena.CoversEach (Expr.tysAll result)

/-- Inferring the body does what inferring its expression or its block does. -/
def Body.Framed (body : Body) : Prop :=
  ∀ ⦃session : Session⦄, session.Ready settled →
    Ensures (Session.inferBody body) session fun result after =>
      session.Continues settled after ∧ after.arena.Apart settled result.2 ∧
        after.arena.CoversEach result.1.tys

/-- Inferring the block does what inferring its statements in order does. -/
def Stmt.FramedBlock (statements : List Stmt) : Prop :=
  ∀ ⦃session : Session⦄, session.Ready settled →
    Ensures (Session.inferBlock statements) session fun result after =>
      session.Continues settled after ∧ after.arena.Apart settled result.2 ∧
        after.arena.CoversEach (Stmt.tysAll result.1)

/-- Inferring the statement does what inferring an expression does, and may bind a name. -/
def Stmt.Framed (statement : Stmt) : Prop :=
  ∀ ⦃session : Session⦄, session.Ready settled →
    Ensures (Session.inferStmt statement) session fun result after =>
      session.Continues settled after ∧ after.arena.Apart settled result.2 ∧
        after.arena.CoversEach result.1.tys

end

namespace Session

variable {settled : Set VarId}

/-! ### Expressions -/

theorem framed_number (value : Binary64) (info : Info) :
    (Expr.number value info).Framed settled := by
  intro session ready
  have apart : session.arena.Apart settled (if value.isInteger then .number else .float) := by
    split_ifs <;> exact apart_prim _
  exact Ensures.pure ⟨⟨.refl ready, apart⟩, coversEach_singleton.mpr apart.covers⟩

theorem framed_string (value : String) (info : Info) :
    (Expr.string value info).Framed settled := by
  intro session ready
  exact Ensures.pure ⟨⟨.refl ready, apart_prim _⟩, coversEach_singleton.mpr (covers_prim _)⟩

theorem framed_bool (value : Bool) (info : Info) : (Expr.bool value info).Framed settled := by
  intro session ready
  exact Ensures.pure ⟨⟨.refl ready, apart_prim _⟩, coversEach_singleton.mpr (covers_prim _)⟩

theorem framed_ident (name : String) (info : Info) : (Expr.ident name info).Framed settled := by
  intro session ready
  refine Ensures.bind (inferIdent_yields ready name info.span) fun ty after ⟨yields, _⟩ => ?_
  exact Ensures.pure ⟨yields, coversEach_singleton.mpr yields.apart.covers⟩

theorem framed_binary (operator : Operator) (info : Info) {left right : Expr}
    (leftFramed : left.Framed settled) (rightFramed : right.Framed settled) :
    (Expr.binary operator left right info).Framed settled := by
  intro session ready
  refine Ensures.bind (leftFramed ready) ?_
  intro ⟨left', leftTy⟩ _ ⟨yields, covers⟩
  refine Ensures.bind (rightFramed (yields.ready ready)) ?_
  intro ⟨right', rightTy⟩ _ ⟨yields', covers'⟩
  have advances := yields.toAdvances.trans yields'.toAdvances
  refine Ensures.bind (solveBinary_yields (advances.ready ready) operator info.span
    (yields'.keeps yields.apart) yields'.apart) fun ty after ⟨last, _⟩ => ?_
  refine Ensures.pure ⟨advances.yields last, ?_⟩
  rw [Expr.tys, coversEach_append, coversEach_append]
  exact ⟨coversEach_singleton.mpr last.apart.covers,
    last.extends_.coversEach (yields'.extends_.coversEach covers),
    last.extends_.coversEach covers'⟩

theorem framed_conditional (info : Info) {test consequent alternate : Expr}
    (testFramed : test.Framed settled) (consequentFramed : consequent.Framed settled)
    (alternateFramed : alternate.Framed settled) :
    (Expr.conditional test consequent alternate info).Framed settled := by
  intro session ready
  refine Ensures.bind (testFramed ready) ?_
  intro ⟨test', testTy⟩ _ ⟨yields, covers⟩
  refine Ensures.bind (unify_advances (yields.ready ready) _ yields.apart (apart_prim _)) ?_
  intro _ _ ⟨step, _⟩
  have tested := yields.toAdvances.trans step
  refine Ensures.bind (consequentFramed (tested.ready ready)) ?_
  intro ⟨consequent', consequentTy⟩ _ ⟨yields', covers'⟩
  have advances := tested.trans yields'.toAdvances
  refine Ensures.bind (alternateFramed (advances.ready ready)) ?_
  intro ⟨alternate', alternateTy⟩ _ ⟨yields'', covers''⟩
  have advances' := advances.trans yields''.toAdvances
  refine Ensures.bind (fresh_yields (advances'.ready ready)) fun ty _ created => ?_
  have advances'' := advances'.trans created.toAdvances
  refine Ensures.bind (unify_advances (advances''.ready ready) _
    (created.keeps (yields''.keeps yields'.apart)) created.apart) fun _ _ ⟨meet, _⟩ => ?_
  refine Ensures.bind (unify_advances ((advances''.trans meet).ready ready) _
    (meet.keeps (created.keeps yields''.apart)) (meet.keeps created.apart)) ?_
  intro _ after ⟨meet', _⟩
  have met := meet.trans meet'
  -- What happens after each branch, from the last one backwards.
  have last := created.toAdvances.trans met
  have last' := yields''.toAdvances.trans last
  have last'' := (step.trans yields'.toAdvances).trans last'
  refine Ensures.pure ⟨⟨advances''.trans met, met.keeps created.apart⟩, ?_⟩
  rw [Expr.tys, coversEach_append, coversEach_append, coversEach_append]
  exact ⟨coversEach_singleton.mpr (met.keeps created.apart).covers,
    last''.extends_.coversEach covers, last'.extends_.coversEach covers',
    last.extends_.coversEach covers''⟩

theorem framed_arrow (params : List Param) (result : Option WrittenType) (info : Info) {body : Body}
    (bodyFramed : body.Framed settled) : (Expr.arrow params result body info).Framed settled := by
  intro session ready
  refine Ensures.modify_bind (Ensures.bind ((inferParams_ensures params ready.push).and
    (inferParams_lossy params ready.push)) ?_)
  intro ⟨params', paramTys⟩ _ ⟨⟨ready', extends_, reports, scopes, apart, elaborates⟩, lossy⟩
  refine Ensures.bind (bodyFramed ready') ?_
  intro ⟨body', bodyTy⟩ now ⟨continues, apartBody, covers⟩
  refine Ensures.bind (meetDeclared_yields continues.ready apartBody result _) ?_
  intro resultTy now' ⟨met, _⟩
  -- Closing the scope of the function restores the scopes in which the function stands.
  have popped : now'.scopes.pop = session.scopes := by
    rw [met.scopes]
    refine Scopes.pop_eq (continues.outer.trans ?_)
    rw [scopes, Scopes.outer_enter, Scopes.push]
  have advances : session.Advances settled { now' with scopes := now'.scopes.pop } :=
    ⟨extends_.trans (continues.extends_.trans met.extends_),
      reports.trans (continues.reports.trans met.reports), popped,
      met.lossy.trans (continues.lossy.trans lossy)⟩
  refine Ensures.modify_bind (Ensures.bind (compress_yields (advances.ready ready) met.apart) ?_)
  intro resultTy' after ⟨head, _⟩
  have inside := (continues.extends_.trans met.extends_).trans head.extends_
  have apartTy : after.arena.Apart settled (.fn paramTys resultTy') :=
    apart_fn.mpr ⟨fun ty member => inside.keeps (apart ty member), head.apart⟩
  refine Ensures.pure ⟨⟨advances.trans head.toAdvances, apartTy⟩, ?_⟩
  rw [Expr.tys, elaborates.tys_eq, coversEach_append, coversEach_append]
  exact ⟨coversEach_singleton.mpr apartTy.covers,
    inside.coversEach fun ty member => (apart ty member).covers,
    (met.extends_.trans head.extends_).coversEach covers⟩

theorem framed_call (info : Info) {callee : Expr} {arguments : List Expr}
    (calleeFramed : callee.Framed settled) (argumentsFramed : Expr.FramedAll settled arguments) :
    (Expr.call callee arguments info).Framed settled := by
  intro session ready
  refine Ensures.bind (calleeFramed ready) ?_
  intro ⟨callee', calleeTy⟩ _ ⟨yields, covers⟩
  refine Ensures.bind (compress_yields (yields.ready ready) yields.apart) ?_
  intro known _ ⟨head, _⟩
  have called := yields.toAdvances.trans head.toAdvances
  refine Ensures.bind (argumentsFramed (called.ready ready)) ?_
  intro ⟨arguments', argumentTys⟩ _ ⟨step, apart, covers'⟩
  have advances := called.trans step
  refine Ensures.bind (solveCall_yields (advances.ready ready) (step.keeps head.apart) apart
    info.span) fun ty after ⟨last, _⟩ => ?_
  have last' := (head.toAdvances.trans step).trans last.toAdvances
  refine Ensures.pure ⟨advances.yields last, ?_⟩
  rw [Expr.tys, coversEach_append, coversEach_append]
  exact ⟨coversEach_singleton.mpr last.apart.covers, last'.extends_.coversEach covers,
    last.extends_.coversEach covers'⟩

theorem framed_array_nil (info : Info) : (Expr.array [] info).Framed settled := by
  intro session ready
  refine Ensures.bind (fresh_yields ready) fun element after created => ?_
  refine Ensures.pure ⟨⟨created.toAdvances, apart_array.mpr created.apart⟩, ?_⟩
  rw [Expr.tys, coversEach_append]
  exact ⟨coversEach_singleton.mpr (covers_array.mpr created.apart.covers), coversEach_nil _⟩

theorem framed_array_cons (info : Info) {head : Expr} {rest : List Expr}
    (headFramed : head.Framed settled) (restFramed : Expr.FramedEach settled rest) :
    (Expr.array (head :: rest) info).Framed settled := by
  intro session ready
  refine Ensures.bind (headFramed ready) ?_
  intro ⟨head', element⟩ _ ⟨yields, covers⟩
  refine Ensures.bind (restFramed (yields.ready ready) yields.apart) ?_
  intro rest' after ⟨advances, covers'⟩
  have apart := apart_array.mpr (advances.keeps yields.apart)
  refine Ensures.pure ⟨⟨yields.toAdvances.trans advances, apart⟩, ?_⟩
  rw [Expr.tys, Expr.tysAll, coversEach_append, coversEach_append]
  exact ⟨coversEach_singleton.mpr apart.covers, advances.extends_.coversEach covers, covers'⟩

theorem framed_index (info : Info) {object position : Expr} (objectFramed : object.Framed settled)
    (positionFramed : position.Framed settled) :
    (Expr.index object position info).Framed settled := by
  intro session ready
  refine Ensures.bind (positionFramed ready) ?_
  intro ⟨position', positionTy⟩ _ ⟨yields, covers⟩
  refine Ensures.bind (unify_advances (yields.ready ready) _ yields.apart (apart_prim _)) ?_
  intro _ _ ⟨step, _⟩
  have placed := yields.toAdvances.trans step
  refine Ensures.bind (objectFramed (placed.ready ready)) ?_
  intro ⟨object', objectTy⟩ _ ⟨yields', covers'⟩
  have advances := placed.trans yields'.toAdvances
  refine Ensures.bind (solveIndex_yields (advances.ready ready) yields'.apart _) ?_
  intro ty after ⟨last, _⟩
  have last' := (step.trans yields'.toAdvances).trans last.toAdvances
  refine Ensures.pure ⟨advances.yields last, ?_⟩
  rw [Expr.tys, coversEach_append, coversEach_append]
  exact ⟨coversEach_singleton.mpr last.apart.covers, last.extends_.coversEach covers',
    last'.extends_.coversEach covers⟩

theorem framedAll_nil : Expr.FramedAll settled [] := by
  intro session ready
  exact Ensures.pure ⟨.refl ready, List.forall_mem_nil _, coversEach_nil _⟩

theorem framedAll_cons {head : Expr} {tail : List Expr} (headFramed : head.Framed settled)
    (tailFramed : Expr.FramedAll settled tail) : Expr.FramedAll settled (head :: tail) := by
  intro session ready
  refine Ensures.bind (headFramed ready) ?_
  intro ⟨head', ty⟩ _ ⟨yields, covers⟩
  refine Ensures.bind (tailFramed (yields.ready ready)) ?_
  intro ⟨tail', types⟩ after ⟨advances, apart, covers'⟩
  refine Ensures.pure ⟨yields.toAdvances.trans advances,
    List.forall_mem_cons.mpr ⟨advances.keeps yields.apart, apart⟩, ?_⟩
  rw [Expr.tysAll, coversEach_append]
  exact ⟨advances.extends_.coversEach covers, covers'⟩

theorem framedEach_nil : Expr.FramedEach settled [] := by
  intro session element ready _
  exact Ensures.pure ⟨.refl ready, coversEach_nil _⟩

theorem framedEach_cons {head : Expr} {tail : List Expr} (headFramed : head.Framed settled)
    (tailFramed : Expr.FramedEach settled tail) : Expr.FramedEach settled (head :: tail) := by
  intro session element ready apart
  refine Ensures.bind (headFramed ready) ?_
  intro ⟨head', ty⟩ _ ⟨yields, covers⟩
  refine Ensures.bind (unify_advances (yields.ready ready) _ yields.apart
    (yields.keeps apart)) fun _ _ ⟨step, _⟩ => ?_
  have met := yields.toAdvances.trans step
  refine Ensures.bind (tailFramed (met.ready ready) (met.keeps apart)) ?_
  intro tail' after ⟨advances, covers'⟩
  refine Ensures.pure ⟨met.trans advances, ?_⟩
  rw [Expr.tysAll, coversEach_append]
  exact ⟨(step.trans advances).extends_.coversEach covers, covers'⟩

/-! ### Bodies and statements -/

theorem framed_value {value : Expr} (valueFramed : value.Framed settled) :
    (Body.value value).Framed settled := by
  intro session ready
  refine Ensures.bind (valueFramed ready) ?_
  intro ⟨value', ty⟩ after ⟨yields, covers⟩
  exact Ensures.pure ⟨yields.continues ready, yields.apart, covers⟩

theorem framed_block {statements : List Stmt} (framed : Stmt.FramedBlock settled statements) :
    (Body.block statements).Framed settled := by
  intro session ready
  exact Ensures.bind (framed ready) fun ⟨statements', ty⟩ after holds => Ensures.pure holds

theorem framedBlock_nil : Stmt.FramedBlock settled [] := by
  intro session ready
  exact Ensures.pure ⟨(Advances.refl ready).continues ready, apart_prim _, coversEach_nil _⟩

theorem framedBlock_cons {head : Stmt} {tail : List Stmt} (headFramed : head.Framed settled)
    (tailFramed : Stmt.FramedBlock settled tail) : Stmt.FramedBlock settled (head :: tail) := by
  intro session ready
  refine Ensures.bind (headFramed ready) ?_
  intro ⟨head', ty⟩ now ⟨continues, apart, covers⟩
  show Ensures (if _ then _ else _) _ _
  split_ifs with last
  · refine Ensures.pure ⟨continues, apart, ?_⟩
    rw [Stmt.tysAll, coversEach_append]
    exact ⟨covers, coversEach_nil _⟩
  · refine Ensures.bind (reportEarlyReturn_advances continues.ready head') ?_
    intro _ now' ⟨step, _⟩
    refine Ensures.bind (tailFramed (step.ready continues.ready)) ?_
    intro ⟨tail', result⟩ after ⟨continues', apart', covers'⟩
    refine Ensures.pure ⟨continues.trans ((step.continues continues.ready).trans continues'),
      apart', ?_⟩
    rw [Stmt.tysAll, coversEach_append]
    exact ⟨(step.extends_.trans continues'.extends_).coversEach covers, covers'⟩

theorem framed_const (name : String) (declared : Option WrittenType) (info : Info) {init : Expr}
    (initFramed : init.Framed settled) : (Stmt.const name declared init info).Framed settled := by
  intro session ready
  refine Ensures.bind (initFramed ready) ?_
  intro ⟨init', initTy⟩ _ ⟨yields, covers⟩
  refine Ensures.bind (meetDeclared_yields (yields.ready ready) yields.apart declared _) ?_
  intro ty now ⟨met, _⟩
  have continues := (yields.toAdvances.trans met.toAdvances).continues ready
  refine Ensures.modify_bind (Ensures.pure ⟨?_, met.apart, ?_⟩)
  · exact ⟨continues.ready.bind met.apart.covers name, continues.extends_, continues.reports,
      continues.outer, continues.monomorphic, continues.lossy⟩
  · rw [Stmt.tys, coversEach_append]
    exact ⟨coversEach_singleton.mpr met.apart.covers, met.extends_.coversEach covers⟩

theorem framed_return_some (info : Info) {argument : Expr}
    (argumentFramed : argument.Framed settled) :
    (Stmt.return (some argument) info).Framed settled := by
  intro session ready
  refine Ensures.bind (argumentFramed ready) ?_
  intro ⟨argument', ty⟩ after ⟨yields, covers⟩
  refine Ensures.pure ⟨yields.continues ready, yields.apart, ?_⟩
  rw [Stmt.tys, coversEach_append]
  exact ⟨coversEach_singleton.mpr yields.apart.covers, covers⟩

theorem framed_return_none (info : Info) : (Stmt.return none info).Framed settled := by
  intro session ready
  exact Ensures.pure ⟨(Advances.refl ready).continues ready, apart_prim _,
    coversEach_singleton.mpr (covers_prim _)⟩

theorem framed_expr {value : Expr} (valueFramed : value.Framed settled) :
    (Stmt.expr value).Framed settled := by
  intro session ready
  refine Ensures.bind (valueFramed ready) ?_
  intro ⟨value', ty⟩ after ⟨yields, covers⟩
  exact Ensures.pure ⟨yields.continues ready, yields.apart, covers⟩

/-! ### Whole trees -/

mutual

/-- Inference of every expression leaves alone what it may. -/
theorem inferExpr_framed : (expr : Expr) → expr.Framed settled
  | .number value info => framed_number value info
  | .string value info => framed_string value info
  | .bool value info => framed_bool value info
  | .ident name info => framed_ident name info
  | .binary operator left right info =>
    framed_binary operator info (inferExpr_framed left) (inferExpr_framed right)
  | .conditional test consequent alternate info =>
    framed_conditional info (inferExpr_framed test) (inferExpr_framed consequent)
      (inferExpr_framed alternate)
  | .arrow params result body info => framed_arrow params result info (inferBody_framed body)
  | .call callee arguments info =>
    framed_call info (inferExpr_framed callee) (inferArguments_framed arguments)
  | .array [] info => framed_array_nil info
  | .array (head :: rest) info =>
    framed_array_cons info (inferExpr_framed head) (inferElements_framed rest)
  | .index object position info =>
    framed_index info (inferExpr_framed object) (inferExpr_framed position)

theorem inferArguments_framed : (arguments : List Expr) → Expr.FramedAll settled arguments
  | [] => framedAll_nil
  | head :: tail => framedAll_cons (inferExpr_framed head) (inferArguments_framed tail)

theorem inferElements_framed : (elements : List Expr) → Expr.FramedEach settled elements
  | [] => framedEach_nil
  | head :: tail => framedEach_cons (inferExpr_framed head) (inferElements_framed tail)

theorem inferBody_framed : (body : Body) → body.Framed settled
  | .value value => framed_value (inferExpr_framed value)
  | .block statements => framed_block (inferBlock_framed statements)

theorem inferBlock_framed : (statements : List Stmt) → Stmt.FramedBlock settled statements
  | [] => framedBlock_nil
  | head :: tail => framedBlock_cons (inferStmt_framed head) (inferBlock_framed tail)

theorem inferStmt_framed : (statement : Stmt) → statement.Framed settled
  | .const name declared init info => framed_const name declared info (inferExpr_framed init)
  | .return (some argument) info => framed_return_some info (inferExpr_framed argument)
  | .return none info => framed_return_none info
  | .expr value => framed_expr (inferExpr_framed value)

end

end Session

end ArrowCheck
