/-
This file proves that inference is sound: if it reports nothing, the tree that it
gives is the program with types in all slots that obey the type rules.

Slots hold variables whose meanings become known later, so the statement about a
part of a tree is about every future of the session in which inference leaves the
part. Where two types were made equal they are so in every future. The induction
is on the tree; the roots of the whole are carried into its parts, together with
the types of those parts that are already done.
-/

import ArrowCheck.Proofs.Polymorphism
import ArrowCheck.Proofs.Programs

namespace ArrowCheck

open Arena

theorem Param.Elaborates.subst {params typed : List Param} {tys : List Ty}
    (elaborates : Param.Elaborates params typed tys) (values : VarId → Ty) :
    Param.Elaborates params (Param.withTys (Ty.subst values) typed)
      (tys.map (Ty.subst values)) := by
  induction elaborates with
  | nil => exact .nil
  | cons declared _ inductionHypothesis => exact .cons (declared.subst values) inductionHypothesis

namespace Session

variable {roots : List Ty} {after session : Session} {final : Arena}

/-! ### What is right of each kind of tree -/

/-- The result of inferring an expression obeys the rules in every future. -/
structure SoundExpr (session : Session) (roots : List Ty) (expr : Expr) (result : Expr × Ty)
    (after : Session) : Prop where
  infers : session.Infers roots after (result.2 :: roots)
  alone : session.Leads [] after [result.2]
  elaborates : after.diagnostics = [] → ∀ final, after.arena.Future (result.2 :: roots) final →
    expr.Elaborates (session.scopes.context final.solved) (result.1.withTys final.solved)
      (final.solved result.2)

/-- The result of inferring arguments obeys the rules in every future. -/
structure SoundArguments (session : Session) (roots : List Ty) (arguments : List Expr)
    (result : List Expr × List (Option Span × Ty)) (after : Session) : Prop where
  infers : session.Infers roots after (result.2.map Prod.snd ++ roots)
  elaborates : after.diagnostics = [] → ∀ final,
    after.arena.Future (result.2.map Prod.snd ++ roots) final →
    Expr.ElaboratesAll (session.scopes.context final.solved) arguments
      (Expr.withTysAll final.solved result.1) ((result.2.map Prod.snd).map final.solved)

/-- The result of inferring elements of a type obeys the rules in every future. -/
structure SoundElements (session : Session) (roots : List Ty) (element : Ty) (elements : List Expr)
    (result : List Expr) (after : Session) : Prop where
  infers : session.Infers roots after roots
  elaborates : after.diagnostics = [] → ∀ final, after.arena.Future roots final →
    Expr.ElaboratesAll (session.scopes.context final.solved) elements
      (Expr.withTysAll final.solved result)
      (List.replicate elements.length (final.solved element))

/-- The result of inferring a body obeys the rules in every future. -/
structure SoundBody (session : Session) (roots : List Ty) (body : Body) (result : Body × Ty)
    (after : Session) : Prop where
  runs : session.Runs roots after (result.2 :: roots)
  elaborates : after.diagnostics = [] → ∀ final, after.arena.Future (result.2 :: roots) final →
    body.Elaborates (session.scopes.context final.solved) (result.1.withTys final.solved)
      (final.solved result.2)

/-- The result of inferring a block obeys the rules in every future. -/
structure SoundBlock (session : Session) (roots : List Ty) (statements : List Stmt)
    (result : List Stmt × Ty) (after : Session) : Prop where
  runs : session.Runs roots after (result.2 :: roots)
  elaborates : after.diagnostics = [] → ∀ final, after.arena.Future (result.2 :: roots) final →
    Stmt.ElaboratesBlock (session.scopes.context final.solved) statements
      (Stmt.withTysAll final.solved result.1) (final.solved result.2)

/-- The result of inferring a statement obeys the rules in every future, and inference can go on
after the statement. -/
structure SoundStmt (session : Session) (roots : List Ty) (statement : Stmt) (result : Stmt × Ty)
    (after : Session) : Prop where
  runs : session.Runs roots after (result.2 :: roots)
  pool : after.Pool roots
  elaborates : after.diagnostics = [] → ∀ final, after.arena.Future (result.2 :: roots) final →
    statement.Elaborates (session.scopes.context final.solved) (result.1.withTys final.solved)
      (final.solved result.2) (after.scopes.context final.solved)
  returns : result.1.isReturn = statement.isReturn

end Session

/-- Inference of the expression is sound whatever the roots. -/
def Expr.Sound (expr : Expr) : Prop :=
  ∀ ⦃session : Session⦄ ⦃roots : List Ty⦄, session.Pool roots →
    Ensures (Session.inferExpr expr) session (session.SoundExpr roots expr)

/-- Inference of the arguments is sound whatever the roots. -/
def Expr.SoundAll (arguments : List Expr) : Prop :=
  ∀ ⦃session : Session⦄ ⦃roots : List Ty⦄, session.Pool roots →
    Ensures (Session.inferArguments arguments) session (session.SoundArguments roots arguments)

/-- Inference of the elements is sound whatever the type that they should share, if it is a root. -/
def Expr.SoundEach (elements : List Expr) : Prop :=
  ∀ ⦃session : Session⦄ ⦃roots : List Ty⦄ ⦃element : Ty⦄, element ∈ roots → session.Pool roots →
    Ensures (Session.inferElements element elements) session
      (session.SoundElements roots element elements)

/-- Inference of the body is sound whatever the roots. -/
def Body.Sound (body : Body) : Prop :=
  ∀ ⦃session : Session⦄ ⦃roots : List Ty⦄, session.Pool roots →
    Ensures (Session.inferBody body) session (session.SoundBody roots body)

/-- Inference of the block is sound whatever the roots. -/
def Stmt.SoundBlock (statements : List Stmt) : Prop :=
  ∀ ⦃session : Session⦄ ⦃roots : List Ty⦄, session.Pool roots →
    Ensures (Session.inferBlock statements) session (session.SoundBlock roots statements)

/-- Inference of the statement is sound whatever the roots. -/
def Stmt.Sound (statement : Stmt) : Prop :=
  ∀ ⦃session : Session⦄ ⦃roots : List Ty⦄, session.Pool roots →
    Ensures (Session.inferStmt statement) session (session.SoundStmt roots statement)

namespace Session

variable {roots : List Ty} {after session : Session} {final : Arena}

/-! ### Expressions -/

theorem types_later {arena : Arena} {settled : Set VarId} (extends_ : arena.Extends settled final)
    {operator : Operator} {left right ty : Ty}
    (types : operator.Types (arena.solved left) (arena.solved right) (arena.solved ty)) :
    operator.Types (final.solved left) (final.solved right) (final.solved ty) := by
  rw [← extends_.solved_solved left, ← extends_.solved_solved right, ← extends_.solved_solved ty]
  exact types.subst final.meaning

/-- It is enough that the rule of an expression holds in every future, since it is known where
inference leads. -/
theorem sound_of_elaborates {expr : Expr}
    (elaborates : ∀ ⦃session : Session⦄ ⦃roots : List Ty⦄, session.Pool roots →
      Ensures (inferExpr expr) session fun result after => after.diagnostics = [] → ∀ final,
        after.arena.Future (result.2 :: roots) final →
        expr.Elaborates (session.scopes.context final.solved) (result.1.withTys final.solved)
          (final.solved result.2)) : expr.Sound := by
  intro session roots pool
  exact ⟨(pool.yields_infers fun _ ready _ => inferExpr_framed expr ready).1,
    yields_leads fun _ ready _ => inferExpr_framed expr ready, elaborates pool⟩

theorem soundAll_of_elaborates {arguments : List Expr}
    (elaborates : ∀ ⦃session : Session⦄ ⦃roots : List Ty⦄, session.Pool roots →
      Ensures (inferArguments arguments) session fun result after => after.diagnostics = [] →
        ∀ final, after.arena.Future (result.2.map Prod.snd ++ roots) final →
        Expr.ElaboratesAll (session.scopes.context final.solved) arguments
          (Expr.withTysAll final.solved result.1) ((result.2.map Prod.snd).map final.solved)) :
    Expr.SoundAll arguments := by
  intro session roots pool
  have frame (settled : Set VarId) (ready : session.Ready settled) :
      Ensures (inferArguments arguments) session fun result after =>
        session.Advances settled after ∧
          (∀ ty ∈ result.2.map Prod.snd, after.arena.Apart settled ty) ∧
          after.arena.CoversEach (Expr.tysAll result.1) :=
    (inferArguments_framed arguments ready).mono fun _ _ ⟨advances, apart, covers⟩ =>
      ⟨advances, List.forall_mem_map.mpr apart, covers⟩
  exact ⟨(pool.advances_infers fun settled ready _ => frame settled ready).1, elaborates pool⟩

theorem soundEach_of_elaborates {elements : List Expr}
    (elaborates : ∀ ⦃session : Session⦄ ⦃roots : List Ty⦄ ⦃element : Ty⦄, element ∈ roots →
      session.Pool roots →
      Ensures (inferElements element elements) session fun result after =>
        after.diagnostics = [] → ∀ final, after.arena.Future roots final →
        Expr.ElaboratesAll (session.scopes.context final.solved) elements
          (Expr.withTysAll final.solved result)
          (List.replicate elements.length (final.solved element))) :
    Expr.SoundEach elements := by
  intro session roots element member pool
  exact ⟨(pool.keeps_infers fun _ ready apart =>
    inferElements_framed elements ready (apart element member)).1, elaborates member pool⟩

theorem sound_number (value : Binary64) (info : Info) : (Expr.number value info).Sound := by
  refine sound_of_elaborates fun session roots pool => ?_
  refine Ensures.pure fun _ final _ => .number ?_
  split_ifs <;> rfl

theorem sound_string (value : String) (info : Info) : (Expr.string value info).Sound := by
  refine sound_of_elaborates fun session roots pool => ?_
  exact Ensures.pure fun _ final _ => .string

theorem sound_bool (value : Bool) (info : Info) : (Expr.bool value info).Sound := by
  refine sound_of_elaborates fun session roots pool => ?_
  exact Ensures.pure fun _ final _ => .bool

theorem sound_ident (name : String) (info : Info) : (Expr.ident name info).Sound := by
  refine sound_of_elaborates fun session roots pool => ?_
  refine Ensures.bind (pool.yields_infers fun _ ready _ =>
    inferIdent_yields ready name info.span) ?_
  intro ty after ⟨infers, found⟩
  refine Ensures.pure fun silent final future => ?_
  obtain ⟨stored, found, instantiates⟩ := found silent
  have past := infers.leads.future pool.toRooted future
  exact .ident (Scopes.lookup_context _ found)
    (instantiates.future pool (Scopes.mem_bound_of_find? found) past future)

theorem sound_binary (operator : Operator) (info : Info) {left right : Expr}
    (leftSound : left.Sound) (rightSound : right.Sound) :
    (Expr.binary operator left right info).Sound := by
  refine sound_of_elaborates fun session roots pool => ?_
  refine Ensures.bind (leftSound pool) ?_
  intro ⟨left', leftTy⟩ _ first
  have pool' := first.infers.pool pool (by simp)
  refine Ensures.bind (rightSound pool') ?_
  intro ⟨right', rightTy⟩ _ second
  have pool'' := second.infers.pool pool' (by simp)
  refine Ensures.bind (pool''.yields_infers fun _ ready apart => solveBinary_yields ready operator
    info.span (apart leftTy (by simp)) (apart rightTy (by simp))) ?_
  intro ty after ⟨infers, types⟩
  refine Ensures.pure fun silent final future => ?_
  have silent' := infers.silent silent
  have past := infers.past pool''.toRooted future (by grind)
  have past' := second.infers.past pool'.toRooted past (by simp)
  have typed := second.elaborates silent' final past
  rw [first.infers.scopes] at typed
  exact .binary (first.elaborates (second.infers.silent silent') final past') typed
    (types_later future (types silent))

theorem sound_conditional (info : Info) {test consequent alternate : Expr} (testSound : test.Sound)
    (consequentSound : consequent.Sound) (alternateSound : alternate.Sound) :
    (Expr.conditional test consequent alternate info).Sound := by
  refine sound_of_elaborates fun session roots pool => ?_
  refine Ensures.bind (testSound pool) ?_
  intro ⟨test', testTy⟩ _ first
  have poolTest := first.infers.pool pool (by simp)
  refine Ensures.bind (poolTest.keeps_infers fun _ ready apart => unify_advances ready _
    (apart testTy (by simp)) (apart_prim .bool)) ?_
  intro _ _ ⟨tests, isBool⟩
  have poolTested := tests.pool poolTest (by simp)
  refine Ensures.bind (consequentSound poolTested) ?_
  intro ⟨consequent', consequentTy⟩ _ second
  have poolSecond := second.infers.pool poolTested (by simp)
  refine Ensures.bind (alternateSound poolSecond) ?_
  intro ⟨alternate', alternateTy⟩ _ third
  have poolThird := third.infers.pool poolSecond (by simp)
  refine Ensures.bind poolThird.fresh_infers fun ty _ creates => ?_
  have poolCreated := creates.pool poolThird (by simp)
  refine Ensures.bind (poolCreated.keeps_infers fun _ ready apart => unify_advances ready _
    (apart consequentTy (by simp)) (apart ty (by simp))) ?_
  intro _ _ ⟨meets, equal⟩
  have poolMet := meets.pool poolCreated (by simp)
  refine Ensures.bind (poolMet.keeps_infers fun _ ready apart => unify_advances ready _
    (apart alternateTy (by simp)) (apart ty (by simp))) ?_
  intro _ after ⟨meets', equal'⟩
  refine Ensures.pure fun silent final future => ?_
  have pastMet := meets'.past poolMet.toRooted future (by grind)
  have pastCreated := meets.past poolCreated.toRooted pastMet (by simp)
  have pastThird := creates.past poolThird.toRooted pastCreated (by simp)
  have pastSecond := third.infers.past poolSecond.toRooted pastThird (by simp)
  have pastTested := second.infers.past poolTested.toRooted pastSecond (by simp)
  have pastTest := tests.past poolTest.toRooted pastTested (by simp)
  have silentThird := creates.silent (meets.silent (meets'.silent silent))
  have silentSecond := third.infers.silent silentThird
  have silentTested := second.infers.silent silentSecond
  have typed := first.elaborates (tests.silent silentTested) final pastTest
  have typed' := second.elaborates silentSecond final pastSecond
  have typed'' := third.elaborates silentThird final pastThird
  have isBool' : final.solved testTy = .bool := pastTested.solved_congr (isBool silentTested)
  rw [isBool'] at typed
  rw [tests.scopes, first.infers.scopes,
    pastMet.solved_congr (equal (meets'.silent silent))] at typed'
  rw [second.infers.scopes, tests.scopes, first.infers.scopes,
    future.solved_congr (equal' silent)] at typed''
  exact .conditional typed typed' typed''

theorem sound_call (info : Info) {callee : Expr} {arguments : List Expr}
    (calleeSound : callee.Sound) (argumentsSound : Expr.SoundAll arguments) :
    (Expr.call callee arguments info).Sound := by
  refine sound_of_elaborates fun session roots pool => ?_
  refine Ensures.bind (calleeSound pool) ?_
  intro ⟨callee', calleeTy⟩ _ first
  have poolCallee := first.infers.pool pool (by simp)
  refine Ensures.bind (poolCallee.yields_infers fun _ ready apart => compress_yields ready
    (apart calleeTy (by simp))) ?_
  intro known _ ⟨heads, same⟩
  have poolKnown := heads.pool poolCallee (by simp)
  refine Ensures.bind (argumentsSound poolKnown) ?_
  intro ⟨arguments', argumentTys⟩ _ second
  have poolArguments := second.infers.pool poolKnown (by simp)
  refine Ensures.bind (poolArguments.yields_infers fun _ ready apart => solveCall_yields ready
    (apart known (by simp)) (fun argument member => apart argument.2
      (List.mem_append_left _ (List.mem_map_of_mem member))) info.span) ?_
  intro ty after ⟨solves, equal⟩
  refine Ensures.pure fun silent final future => ?_
  have pastArguments := solves.past poolArguments.toRooted future (by grind)
  have pastKnown := second.infers.past poolKnown.toRooted pastArguments (by simp)
  have pastCallee := heads.past poolCallee.toRooted pastKnown (by simp)
  have silentArguments := solves.silent silent
  have silentCallee := heads.silent (second.infers.silent silentArguments)
  have typed := first.elaborates silentCallee final pastCallee
  have typed' := second.elaborates silentArguments final pastArguments
  have function : final.solved calleeTy =
      .fn ((argumentTys.map Prod.snd).map final.solved) (final.solved ty) := by
    rw [← pastCallee.solved_congr same, future.solved_congr (equal silent), solved_fn]
  rw [function] at typed
  rw [heads.scopes, first.infers.scopes] at typed'
  exact .call typed typed'

theorem sound_array_nil (info : Info) : (Expr.array [] info).Sound := by
  refine sound_of_elaborates fun session roots pool => ?_
  refine Ensures.bind pool.fresh_infers fun element after creates => ?_
  exact Ensures.pure fun silent final future => .array .nil

theorem sound_array_cons (info : Info) {head : Expr} {rest : List Expr} (headSound : head.Sound)
    (restSound : Expr.SoundEach rest) : (Expr.array (head :: rest) info).Sound := by
  refine sound_of_elaborates fun session roots pool => ?_
  refine Ensures.bind (headSound pool) ?_
  intro ⟨head', element⟩ _ first
  have poolHead := first.infers.pool pool (by simp)
  refine Ensures.bind (restSound (by simp) poolHead) ?_
  intro rest' after second
  refine Ensures.pure fun silent final future => ?_
  have poolRest := second.infers.pool poolHead (List.Subset.refl _)
  have parts : after.arena.Future ([element] ++ roots) final := by
    refine future.split poolRest.ready.wellFormed fun id occurs => ⟨element, by simp, ?_⟩
    rw [solved_array, Ty.mem_vars_array] at occurs
    exact occurs
  have past := second.infers.past poolHead.toRooted parts (by simp)
  have typed := first.elaborates (second.infers.silent silent) final past
  have typed' := second.elaborates silent final parts
  rw [first.infers.scopes] at typed'
  exact .array (.cons typed typed')

theorem sound_index (info : Info) {object position : Expr} (objectSound : object.Sound)
    (positionSound : position.Sound) : (Expr.index object position info).Sound := by
  refine sound_of_elaborates fun session roots pool => ?_
  refine Ensures.bind (positionSound pool) ?_
  intro ⟨position', positionTy⟩ _ first
  have poolPosition := first.infers.pool pool (by simp)
  refine Ensures.bind (poolPosition.keeps_infers fun _ ready apart => unify_advances ready _
    (apart positionTy (by simp)) (apart_prim .number)) ?_
  intro _ _ ⟨places, isNumber⟩
  have poolPlaced := places.pool poolPosition (by simp)
  refine Ensures.bind (objectSound poolPlaced) ?_
  intro ⟨object', objectTy⟩ _ second
  have poolObject := second.infers.pool poolPlaced (by simp)
  refine Ensures.bind (poolObject.yields_infers fun _ ready apart => solveIndex_yields ready
    (apart objectTy (by simp)) _) ?_
  intro ty after ⟨solves, equal⟩
  refine Ensures.pure fun silent final future => ?_
  have pastObject := solves.past poolObject.toRooted future (by grind)
  have pastPlaced := second.infers.past poolPlaced.toRooted pastObject (by simp)
  have pastPosition := places.past poolPosition.toRooted pastPlaced (by simp)
  have silentObject := solves.silent silent
  have silentPlaced := second.infers.silent silentObject
  have typed := first.elaborates (places.silent silentPlaced) final pastPosition
  have typed' := second.elaborates silentObject final pastObject
  have isNumber' : final.solved positionTy = .number :=
    pastPlaced.solved_congr (isNumber silentPlaced)
  rw [isNumber'] at typed
  rw [places.scopes, first.infers.scopes, future.solved_congr (equal silent),
    solved_array] at typed'
  exact .index typed typed'

/-- The parameters of a function are roots while its body is inferred. -/
theorem inferParams_pool (pool : session.Pool roots) (params : List Param) :
    Ensures (inferParams params) { session with scopes := session.scopes.push }
      fun result after =>
        session.Leads roots after (result.2 ++ roots) ∧ after.Pool (result.2 ++ roots) ∧
        (after.diagnostics = [] → session.diagnostics = []) ∧
        after.scopes = session.scopes.push.enter params result.2 ∧
        Param.Elaborates params result.1 result.2 := by
  have leads : Ensures (inferParams params) { session with scopes := session.scopes.push }
      fun result after => session.Leads roots after (result.2 ++ roots) := by
    intro settled ready apart
    obtain ⟨ready', extends_, _, _, apart', _⟩ := inferParams_ensures params ready.push
    exact ⟨ready', extends_, List.forall_mem_append.mpr
      ⟨apart', fun ty member => extends_.keeps (apart ty member)⟩⟩
  refine (leads.and (inferParams_ensures params pool.ready.push)).mono ?_
  intro ⟨params', tys⟩ after ⟨leads, _, _, reports, scopes, _, elaborates⟩
  obtain ⟨more, only⟩ := session.scopes.push.monomorphic_enter params tys
  refine ⟨leads, ?_, fun silent => ?_, scopes, elaborates⟩
  · refine pool.lead leads ?_ ?_ ?_ <;> rw [scopes]
    · exact fun ty member => session.scopes.push.bound_enter params tys member
    · exact more
    · exact List.Subset.trans only (List.append_subset.mpr
        ⟨List.Subset.trans pool.monomorphic (List.subset_append_right _ _),
          List.subset_append_left _ _⟩)
  · rw [silent] at reports
    exact List.prefix_nil.mp reports

theorem sound_arrow (params : List Param) (result : Option WrittenType) (info : Info)
    {body : Body} (bodySound : body.Sound) : (Expr.arrow params result body info).Sound := by
  refine sound_of_elaborates fun session roots pool => ?_
  refine Ensures.modify_bind (Ensures.bind (inferParams_pool pool params) ?_)
  intro ⟨params', paramTys⟩ _ ⟨leads, poolParams, quiet, scopes, elaborates⟩
  refine Ensures.bind (bodySound poolParams) ?_
  intro ⟨body', bodyTy⟩ _ second
  have rootedBody := second.runs.rooted poolParams.toRooted (by simp)
  refine Ensures.bind (rootedBody.yields_infers fun _ ready apart => meetDeclared_yields ready
    (apart bodyTy (by simp)) result _) ?_
  intro resultTy now ⟨meets, agrees, equal⟩
  have rootedMet := meets.rooted rootedBody (by simp)
  have popped : now.scopes.pop = session.scopes := by
    rw [meets.scopes]
    refine Scopes.pop_eq (second.runs.outer.trans ?_)
    rw [scopes, Scopes.outer_enter, Scopes.push]
  obtain ⟨_, extends_, _⟩ := ((leads.trans second.runs.leads).trans meets.leads) ∅ pool.ready
    fun ty member => apart_empty (pool.covers ty member)
  -- The types of the parameters stay roots after the scope is closed, as parts of the result.
  have rootedPopped : Rooted { now with scopes := now.scopes.pop }
      (resultTy :: bodyTy :: (paramTys ++ roots)) := by
    refine ⟨pool.ready.extend extends_ popped, rootedMet.covers, ?_⟩
    show now.scopes.pop.current.monomorphic ⊆ _
    rw [popped]
    exact List.Subset.trans pool.monomorphic (by grind)
  refine Ensures.modify_bind (Ensures.bind (rootedPopped.yields_infers fun _ ready apart =>
    compress_yields ready (apart resultTy (by simp))) ?_)
  rintro head after ⟨heads, same⟩
  refine Ensures.pure fun silent final future => ?_
  -- A future of the function type is one of its parts.
  have parts : after.arena.Future ((head :: paramTys) ++ roots) final := by
    refine future.split (heads.rooted rootedPopped (by simp)).ready.wellFormed ?_
    intro id occurs
    rw [solved_fn, Ty.mem_vars_fn] at occurs
    rcases occurs with ⟨param, member, occurs⟩ | occurs
    · obtain ⟨source, member, same⟩ := List.mem_map.mp member
      rw [← same] at occurs
      exact ⟨source, List.mem_cons_of_mem _ member, occurs⟩
    · exact ⟨head, List.mem_cons_self, occurs⟩
  have pastPopped := heads.past rootedPopped parts (by grind)
  have pastBody := meets.past rootedBody pastPopped (by simp)
  have silentMet := heads.silent silent
  have typed := second.elaborates (meets.silent silentMet) final pastBody
  have resultIs : final.solved bodyTy = final.solved head :=
    (pastPopped.solved_congr (equal silentMet)).trans (pastPopped.solved_congr same).symm
  have agrees' : Declared result (final.solved head) := by
    rw [pastPopped.solved_congr same]
    exact agrees.subst final.meaning
  rw [scopes, Scopes.context_enter, Scopes.context_push, resultIs] at typed
  show Expr.Elaborates _ _ (.arrow (Param.withTys final.solved params') result
    (body'.withTys final.solved) (info.typed (final.solved (.fn paramTys head))))
    (final.solved (.fn paramTys head))
  rw [solved_fn]
  exact .arrow (elaborates.subst final.meaning) typed agrees'

theorem soundAll_nil : Expr.SoundAll [] := by
  refine soundAll_of_elaborates fun session roots pool => ?_
  exact Ensures.pure fun _ final _ => .nil

theorem soundAll_cons {head : Expr} {tail : List Expr} (headSound : head.Sound)
    (tailSound : Expr.SoundAll tail) : Expr.SoundAll (head :: tail) := by
  refine soundAll_of_elaborates fun session roots pool => ?_
  refine Ensures.bind (headSound pool) ?_
  intro ⟨head', ty⟩ _ first
  have poolHead := first.infers.pool pool (by simp)
  refine Ensures.bind (tailSound poolHead) ?_
  intro ⟨tail', types⟩ after second
  have poolTail := second.infers.pool poolHead (by simp)
  refine Ensures.pure fun silent final future => ?_
  have futureTail : after.arena.Future (types.map Prod.snd ++ ty :: roots) final :=
    future.mono poolTail.ready.wellFormed (by grind)
  have past := second.infers.past poolHead.toRooted futureTail (by simp)
  have typed' := second.elaborates silent final futureTail
  rw [first.infers.scopes] at typed'
  exact .cons (first.elaborates (second.infers.silent silent) final past) typed'

theorem soundEach_nil : Expr.SoundEach [] := by
  refine soundEach_of_elaborates fun session roots element member pool => ?_
  exact Ensures.pure fun _ final _ => .nil

theorem soundEach_cons {head : Expr} {tail : List Expr} (headSound : head.Sound)
    (tailSound : Expr.SoundEach tail) : Expr.SoundEach (head :: tail) := by
  refine soundEach_of_elaborates fun session roots element member pool => ?_
  refine Ensures.bind (headSound pool) ?_
  intro ⟨head', ty⟩ _ first
  have poolHead := first.infers.pool pool (by simp)
  refine Ensures.bind (poolHead.keeps_infers fun _ ready apart => unify_advances ready _
    (apart ty (by simp)) (apart element (List.mem_cons_of_mem _ member))) ?_
  intro _ _ ⟨meets, equal⟩
  have poolMet := meets.pool poolHead (by simp)
  refine Ensures.bind (tailSound (List.mem_cons_of_mem _ member) poolMet) ?_
  intro tail' after second
  have poolTail := second.infers.pool poolMet (by simp)
  refine Ensures.pure fun silent final future => ?_
  have futureTail := future.mono poolTail.ready.wellFormed (List.subset_cons_self ty roots)
  have pastMet := second.infers.past poolMet.toRooted futureTail (by simp)
  have pastHead := meets.past poolHead.toRooted pastMet (by simp)
  have silentMet := second.infers.silent silent
  have typed := first.elaborates (meets.silent silentMet) final pastHead
  have typed' := second.elaborates silent final futureTail
  rw [pastMet.solved_congr (equal silentMet)] at typed
  rw [meets.scopes, first.infers.scopes] at typed'
  exact .cons typed typed'

/-! ### Bodies and statements -/

/-- The type of an expression need not be kept as a root. -/
theorem SoundExpr.pool {expr : Expr} {result : Expr × Ty}
    (sound : session.SoundExpr roots expr result after) (pool : session.Pool roots) :
    after.Pool roots := by
  refine (sound.infers.pool pool (List.subset_cons_self _ _)).fewer (List.subset_cons_self _ _) ?_
  rw [sound.infers.scopes]
  exact pool.monomorphic

theorem soundBlock_of_elaborates {statements : List Stmt}
    (elaborates : ∀ ⦃session : Session⦄ ⦃roots : List Ty⦄, session.Pool roots →
      Ensures (inferBlock statements) session fun result after => after.diagnostics = [] →
        ∀ final, after.arena.Future (result.2 :: roots) final →
        Stmt.ElaboratesBlock (session.scopes.context final.solved) statements
          (Stmt.withTysAll final.solved result.1) (final.solved result.2)) :
    Stmt.SoundBlock statements :=
  fun _ _ pool => ⟨pool.continues_runs fun _ ready => inferBlock_framed statements ready,
    elaborates pool⟩

theorem sound_of_goesOn {statement : Stmt}
    (goesOn : ∀ ⦃session : Session⦄ ⦃roots : List Ty⦄, session.Pool roots →
      Ensures (inferStmt statement) session fun result after => after.Pool roots ∧
        (after.diagnostics = [] → ∀ final, after.arena.Future (result.2 :: roots) final →
          statement.Elaborates (session.scopes.context final.solved)
            (result.1.withTys final.solved) (final.solved result.2)
            (after.scopes.context final.solved)) ∧
        result.1.isReturn = statement.isReturn) : statement.Sound := by
  intro session roots pool
  obtain ⟨pool', elaborates, returns⟩ := goesOn pool
  exact ⟨pool.continues_runs fun _ ready => inferStmt_framed statement ready, pool', elaborates,
    returns⟩

theorem sound_value {value : Expr} (valueSound : value.Sound) : (Body.value value).Sound := by
  intro session roots pool
  refine Ensures.bind (valueSound pool) fun ⟨value', ty⟩ after sound => ?_
  exact Ensures.pure ⟨sound.infers.toRuns, fun silent final future =>
    .value (sound.elaborates silent final future)⟩

theorem sound_block {statements : List Stmt} (blockSound : Stmt.SoundBlock statements) :
    (Body.block statements).Sound := by
  intro session roots pool
  refine Ensures.bind (blockSound pool) fun ⟨statements', ty⟩ after sound => ?_
  exact Ensures.pure ⟨sound.runs, fun silent final future =>
    .block (sound.elaborates silent final future)⟩

theorem soundBlock_nil : Stmt.SoundBlock [] := by
  refine soundBlock_of_elaborates fun session roots pool => ?_
  exact Ensures.pure fun _ final _ => .nil

theorem soundBlock_cons {head : Stmt} {tail : List Stmt} (headSound : head.Sound)
    (tailSound : Stmt.SoundBlock tail) : Stmt.SoundBlock (head :: tail) := by
  refine soundBlock_of_elaborates fun session roots pool => ?_
  refine Ensures.bind (headSound pool) ?_
  intro ⟨head', ty⟩ now first
  show Ensures (if _ then _ else _) _ _
  split_ifs with last
  · obtain ⟨returns, same⟩ := last
    subst same
    refine Ensures.pure fun silent final future => ?_
    exact .last (first.returns.symm.trans returns) (first.elaborates silent final future)
  · refine Ensures.bind (first.pool.keeps_infers fun _ ready _ =>
      reportEarlyReturn_advances ready head') ?_
    intro _ _ ⟨checks, continues⟩
    have poolTail := checks.pool first.pool (by simp)
    refine Ensures.bind (tailSound poolTail) ?_
    intro ⟨tail', result⟩ after second
    refine Ensures.pure fun silent final future => ?_
    -- The type of the statement is no root of the rest, which leaves it alone.
    have rooted := first.runs.rooted pool.toRooted (List.subset_cons_self _ _)
    have checks' := checks.frame (List.subset_cons_self ty roots)
    have rooted' := checks'.rooted rooted (List.subset_append_right _ _)
    have past' := (second.runs.frame (List.subset_append_left roots _)).past rooted' future
      (by grind)
    have past := checks'.past rooted past' (List.Subset.refl _)
    have silent' := second.runs.silent silent
    have typed := first.elaborates (checks.silent silent') final past
    have typed' := second.elaborates silent final future
    rw [checks.scopes] at typed'
    exact .cons (first.returns.symm.trans (continues silent')) typed typed'

theorem sound_const (name : String) (declared : Option WrittenType) (info : Info) {init : Expr}
    (initSound : init.Sound) : (Stmt.const name declared init info).Sound := by
  refine sound_of_goesOn fun session roots pool => ?_
  refine Ensures.bind (initSound pool) ?_
  intro ⟨init', initTy⟩ _ first
  have poolInit := first.infers.pool pool (by simp)
  refine Ensures.bind ((poolInit.yields_infers fun _ ready apart => meetDeclared_yields ready
    (apart initTy (by simp)) declared _).and (yields_leads fun _ ready apart =>
      meetDeclared_yields ready (apart initTy (List.mem_singleton_self _)) declared _)) ?_
  intro ty now ⟨⟨meets, agrees, equal⟩, alone⟩
  have scopes := meets.scopes.trans first.infers.scopes
  refine Ensures.modify_bind (Ensures.pure ⟨pool.bind (first.alone.trans alone) scopes name,
    fun silent final future => ?_, rfl⟩)
  have past := meets.past poolInit.toRooted future (by grind)
  have typed := first.elaborates (meets.silent silent) final past
  have equal' := future.solved_congr (equal silent)
  rw [equal'] at typed
  show Stmt.Elaborates _ _ _ _ ((now.scopes.bind name ty).context final.solved)
  rw [scopes, Scopes.context_bind]
  exact .const typed (agrees.subst final.meaning)

theorem sound_return_some (info : Info) {argument : Expr} (argumentSound : argument.Sound) :
    (Stmt.return (some argument) info).Sound := by
  refine sound_of_goesOn fun session roots pool => ?_
  refine Ensures.bind (argumentSound pool) ?_
  intro ⟨argument', ty⟩ after sound
  refine Ensures.pure ⟨sound.pool pool, fun silent final future => ?_, rfl⟩
  rw [sound.infers.scopes]
  exact .returnValue (sound.elaborates silent final future)

theorem sound_return_none (info : Info) : (Stmt.return none info).Sound := by
  refine sound_of_goesOn fun session roots pool => ?_
  exact Ensures.pure ⟨pool, fun silent final future => .returnNothing, rfl⟩

theorem sound_expr {value : Expr} (valueSound : value.Sound) : (Stmt.expr value).Sound := by
  refine sound_of_goesOn fun session roots pool => ?_
  refine Ensures.bind (valueSound pool) ?_
  intro ⟨value', ty⟩ after sound
  refine Ensures.pure ⟨sound.pool pool, fun silent final future => ?_, rfl⟩
  rw [sound.infers.scopes]
  exact .expr (sound.elaborates silent final future)

/-! ### Whole trees -/

mutual

/-- Inference of every expression is sound. -/
theorem inferExpr_sound : (expr : Expr) → expr.Sound
  | .number value info => sound_number value info
  | .string value info => sound_string value info
  | .bool value info => sound_bool value info
  | .ident name info => sound_ident name info
  | .binary operator left right info =>
    sound_binary operator info (inferExpr_sound left) (inferExpr_sound right)
  | .conditional test consequent alternate info =>
    sound_conditional info (inferExpr_sound test) (inferExpr_sound consequent)
      (inferExpr_sound alternate)
  | .arrow params result body info => sound_arrow params result info (inferBody_sound body)
  | .call callee arguments info =>
    sound_call info (inferExpr_sound callee) (inferArguments_sound arguments)
  | .array [] info => sound_array_nil info
  | .array (head :: rest) info =>
    sound_array_cons info (inferExpr_sound head) (inferElements_sound rest)
  | .index object position info =>
    sound_index info (inferExpr_sound object) (inferExpr_sound position)

theorem inferArguments_sound : (arguments : List Expr) → Expr.SoundAll arguments
  | [] => soundAll_nil
  | head :: tail => soundAll_cons (inferExpr_sound head) (inferArguments_sound tail)

theorem inferElements_sound : (elements : List Expr) → Expr.SoundEach elements
  | [] => soundEach_nil
  | head :: tail => soundEach_cons (inferExpr_sound head) (inferElements_sound tail)

theorem inferBody_sound : (body : Body) → body.Sound
  | .value value => sound_value (inferExpr_sound value)
  | .block statements => sound_block (inferBlock_sound statements)

theorem inferBlock_sound : (statements : List Stmt) → Stmt.SoundBlock statements
  | [] => soundBlock_nil
  | head :: tail => soundBlock_cons (inferStmt_sound head) (inferBlock_sound tail)

theorem inferStmt_sound : (statement : Stmt) → statement.Sound
  | .const name declared init info => sound_const name declared info (inferExpr_sound init)
  | .return (some argument) info => sound_return_some info (inferExpr_sound argument)
  | .return none info => sound_return_none info
  | .expr value => sound_expr (inferExpr_sound value)

end

/-! ### Whole programs -/

theorem new_pool (lossy : Bool) : (new lossy).Pool [] :=
  ⟨⟨new_ready lossy, coversEach_nil _, List.Subset.refl _⟩, List.forall_mem_nil _⟩

theorem inferStmts_runs (ready : session.Ready ∅) (statements : List Stmt) (roots : List Ty) :
    Ensures (inferStmts statements) session fun _ after => session.Runs roots after roots := by
  have alone : Ensures (inferStmts statements) session fun _ after =>
      session.Leads [] after [] := by
    intro settled ready _
    have continues := (inferStmts_continues statements ready).1
    exact ⟨continues.ready, continues.extends_, List.forall_mem_nil _⟩
  have continues := (inferStmts_continues statements ready).1
  exact ⟨alone.frame (List.nil_subset roots), continues.silent, continues.outer,
    continues.monomorphic⟩

theorem inferStmts_sound (statements : List Stmt) {session : Session} {roots : List Ty}
    (pool : session.Pool roots) :
    Ensures (inferStmts statements) session fun result after => after.diagnostics = [] → ∀ final,
      after.arena.Future roots final →
      Stmt.ElaboratesAll (session.scopes.context final.solved) statements
        (Stmt.withTysAll final.solved result.1) (result.2.map final.solved) := by
  induction statements generalizing session with
  | nil => exact Ensures.pure fun _ final _ => .nil
  | cons head tail inductionHypothesis =>
    refine Ensures.bind (inferStmt_sound head pool) ?_
    intro ⟨head', ty⟩ _ first
    refine Ensures.bind ((inferStmts_runs first.pool.ready tail (ty :: roots)).and
      (inductionHypothesis first.pool)) ?_
    intro ⟨tail', tys⟩ after ⟨runs, elaborates⟩
    refine Ensures.pure fun silent final future => ?_
    have rooted := first.runs.rooted pool.toRooted (List.subset_cons_self _ _)
    have past := runs.past rooted future (List.subset_cons_self _ _)
    exact .cons (first.elaborates (runs.silent silent) final past) (elaborates silent final future)

theorem getLastD_map_solved (arena : Arena) (tys : List Ty) :
    (tys.map arena.solved).getLastD .void = arena.solved (tys.getLastD .void) := by
  rw [List.getLastD_eq_getLast?, List.getLastD_eq_getLast?, List.getLast?_map]
  cases tys.getLast? <;> rfl

/-- If inference of statements in a new session reports nothing, they obey the type rules with the
types that are known after the last of them. -/
theorem inferStmts_elaborate {lossy : Bool} {statements statements' : List Stmt} {tys : List Ty}
    {now : Session} (ran : inferStmts statements (new lossy) = ((statements', tys), now))
    (silent : now.diagnostics = []) :
    Stmt.ElaboratesAll {} statements (Stmt.withTysAll now.arena.solved statements')
      (tys.map now.arena.solved) := by
  have continues := (inferStmts_continues statements (new_ready lossy)).1
  have sound := inferStmts_sound statements (new_pool lossy)
  rw [ran] at continues
  rw [Ensures, ran] at sound
  -- Nothing is inferred after the last statement, so the arena is its own future.
  have present : now.arena.Future [] now.arena :=
    .refl continues.ready.wellFormed (settles_unreached _ _)
  exact sound silent now.arena present

/-- If inference of a program in a new session reports nothing, it gives the program with types in
all slots that obey the type rules. -/
theorem infer_elaborates (program : Program) (lossy : Bool)
    (silent : (infer program (new lossy)).1.2.diagnostics = []) :
    program.Elaborates (infer program (new lossy)).1.1 := by
  obtain ⟨statements, tys, now, ran, _, _, typed, reported⟩ :=
    infer_ensures (new_ready lossy) program
  rw [reported] at silent
  refine ⟨tys.map now.arena.solved, ?_, ?_⟩
  · rw [typed]
    exact inferStmts_elaborate ran silent
  · rw [typed, getLastD_map_solved]

/-- A function that is used at two types. -/
theorem identity_used_twice_elaborates :
    let same : Expr := .arrow [{ name := "x" }] none (.value (.ident "x" {})) {}
    let flag : Expr := .call (.ident "same" {}) [.bool true {}] {}
    let text : Expr := .call (.ident "same" {}) [.string "a" {}] {}
    let program : Program := ⟨[.const "same" none same {}, .const "flag" none flag {},
      .expr (.conditional (.ident "flag" {}) text (.string "b" {}) {})], {}⟩
    (infer program (new false)).1.2.diagnostics = [] ∧
      program.Elaborates (infer program (new false)).1.1 := by
  intro same flag text program
  have silent : (infer program (new false)).1.2.diagnostics = [] := by decide +kernel
  exact ⟨silent, infer_elaborates program false silent⟩

end Session

end ArrowCheck
