/-
This file proves that inference finds a type wherever the rules have one, as long as
no sum occurs, and that the type it finds is the most general one of those that the
rules have. The proof follows a derivation of the rules: it gives types for the
variables that inference creates, and the types of the derivation are the values of
those that inference finds.

No scheme is ever built, since genericity is decided where a name is used. What
takes the place of a scheme is the set of variables that were generic where a
constant was declared. Nothing that happens later touches them, so every use of
the name may give them values of its own.
-/

import ArrowCheck.Proofs.Generalisation
import ArrowCheck.Proofs.Soundness
import ArrowCheck.Proofs.Valuations

namespace ArrowCheck

open Arena

namespace Session

/-- The type that a name is bound to grants every instance of the scheme of that name. -/
structure Provides (settled : Set VarId) (arena : Arena) (values : VarId → Ty)
    (entry : String × Scheme) (binding : String × Ty) : Prop where
  name_eq : entry.1 = binding.1
  covers : arena.Covers binding.2
  grants : ∀ ty, entry.2.Instance ty → Grants settled arena values binding.2 ty

/-- Types for the variables of a session that make it serve assumptions. -/
structure Fits (settled : Set VarId) (values : VarId → Ty) (assumptions : Assumptions)
    (session : Session) : Prop extends Valued settled values session where
  params : session.scopes.current.monomorphic.map (Ty.subst values) = assumptions.params
  names : List.Forall₂ (Provides settled session.arena values) assumptions.schemes
    session.scopes.bindings

variable {settled : Set VarId} {values values' : VarId → Ty} {assumptions : Assumptions}
  {before after session : Session}

/-! ### What names grant -/

/-- A type goes on to grant what it grants. -/
theorem Grants.later {before after : Arena} {stored value : Ty}
    (grants : Grants settled before values stored value)
    (extends_ : before.Extends settled after) (wellFormed : before.WellFormed)
    (covers : before.Covers stored) (agrees : ∀ id < before.size, values' id = values id)
    (solves : Solves values' after) : Grants settled after values' stored value := by
  obtain ⟨others, rfl⟩ := grants
  refine ⟨others, ?_⟩
  rw [← extends_.solved_solved stored]
  refine (Ty.subst_congr fun id occurs => ?_).trans (subst_solved _ _).symm
  have known := covers.solved wellFormed id occurs
  by_cases member : id ∈ settled
  · rw [extends_.free id member, Ty.subst_var, patched_of_mem member, patched_of_mem member]
  · -- A variable that may be bound has a meaning apart from those that are left alone.
    have free := meaning_of_free (target_of_mem_solved wellFormed occurs)
    have apart := (extends_.keeps (apart_of_free known free member)).avoids
    rw [patched_of_notMem member, ← agrees id known,
      solves.eq_subst_meaning extends_.wellFormed id]
    refine Ty.subst_congr fun other inside => (patched_of_notMem ?_).symm
    exact avoids_var.mp apart other inside

/-- More variables that are left alone grant more. -/
theorem Grants.mono {arena : Arena} {stored value : Ty} {more : Set VarId}
    (grants : Grants settled arena values stored value) (subset : settled ⊆ more) :
    Grants more arena values stored value := by
  obtain ⟨others, rfl⟩ := grants
  refine ⟨patched settled others values, Ty.subst_congr fun id _ => ?_⟩
  by_cases member : id ∈ more
  · rw [patched_of_mem member]
  · rw [patched_of_notMem member, patched_of_notMem fun inside => member (subset inside)]

theorem grants_self {arena : Arena} (wellFormed : arena.WellFormed) (solves : Solves values arena)
    (ty : Ty) : Grants settled arena values ty (ty.subst values) := by
  refine ⟨values, ?_⟩
  rw [← solves.subst_solved wellFormed]
  refine Ty.subst_congr fun id _ => ?_
  by_cases member : id ∈ settled
  · rw [patched_of_mem member]
  · rw [patched_of_notMem member]

namespace Fits

theorem follow (fits : before.Fits settled values assumptions)
    (follows : before.Follows settled values after values') :
    after.Fits settled values' assumptions where
  toValued := follows.valued fits.toValued
  params := by
    rw [follows.scopes, ← fits.params]
    exact follows.map_subst_eq fun ty member =>
      fits.ready.covers ty (Scopes.mem_tys_of_monomorphic member)
  names := by
    rw [follows.scopes]
    refine fits.names.imp fun entry binding provides => ?_
    exact ⟨provides.name_eq, follows.extends_.covers provides.covers, fun ty instance_ =>
      (provides.grants ty instance_).later follows.extends_ fits.ready.wellFormed provides.covers
        follows.agrees follows.solves⟩

theorem push (fits : session.Fits settled values assumptions) :
    Fits settled values assumptions { session with scopes := session.scopes.push } :=
  ⟨⟨fits.ready.push, fits.solves⟩, fits.params, fits.names⟩

/-- A parameter has the type that it is given. -/
theorem bindParam (fits : session.Fits settled values assumptions) {ty : Ty}
    (apart : session.arena.Apart settled ty) (name : String) :
    Fits settled values (assumptions.bindParam name (ty.subst values))
      { session with scopes := (session.scopes.bind name ty).keep ty } where
  ready := (fits.ready.bind apart.covers name).keep apart
  solves := fits.solves
  params := by
    show (session.scopes.current.monomorphic ++ [ty]).map (Ty.subst values) = _
    rw [List.map_append, fits.params]
    rfl
  names := by
    refine .cons ⟨rfl, apart.covers, fun other instance_ => ?_⟩ fits.names
    obtain ⟨changes, rfl, fixed⟩ := instance_
    rw [Ty.subst_eq_self fun id _ => fixed id (Set.notMem_empty id)]
    exact grants_self fits.ready.wellFormed fits.solves ty

/-- A constant has every instance of its scheme, once the variables that are generic where it is
declared are left alone. -/
theorem declare (fits : session.Fits settled values assumptions) {ty : Ty}
    (covers : session.arena.Covers ty) (name : String) :
    ∃ more, Fits more values (assumptions.declare name (ty.subst values))
      { session with scopes := session.scopes.bind name ty } := by
  have ready := fits.ready
  have wellFormed := ready.wellFormed
  have subset : settled ⊆ settled ∪ session.generic [ty] := Set.subset_union_left
  refine ⟨settled ∪ session.generic [ty], ⟨⟨wellFormed, ?_,
    Scopes.forall_mem_bind ready.covers covers, ?_⟩, fits.solves⟩, fits.params, ?_⟩
  · rintro id (member | ⟨⟨_, member, occurs⟩, _⟩)
    · exact ready.settles id member
    · rw [List.mem_singleton.mp member] at occurs
      exact ⟨covers.solved wellFormed id occurs,
        meaning_of_free (target_of_mem_solved wellFormed occurs)⟩
  · rintro kept member id occurs (inside | ⟨_, generic⟩)
    · exact ready.avoids kept member id occurs inside
    · exact generic ⟨kept, member, occurs⟩
  · refine .cons ⟨rfl, covers, fun other instance_ => ?_⟩
      (fits.names.imp fun entry binding provides => ⟨provides.name_eq, provides.covers,
        fun other instance_ => (provides.grants other instance_).mono subset⟩)
    obtain ⟨changes, rfl, fixed⟩ := instance_
    refine ⟨fun id => (values id).subst changes, ?_⟩
    show (ty.subst values).subst changes = _
    rw [← fits.solves.subst_solved wellFormed, Ty.subst_subst]
    refine Ty.subst_congr fun id occurs => ?_
    by_cases member : id ∈ settled ∪ session.generic [ty]
    · rw [patched_of_mem member]
    · rw [patched_of_notMem member]
      -- The variable is monomorphic, so the types of parameters hold the variables of its value.
      have monomorphic : session.Monomorphic id := by
        by_contra generic
        exact member (.inr ⟨⟨ty, List.mem_singleton_self ty, occurs⟩, generic⟩)
      obtain ⟨kept, keptMember, within⟩ := monomorphic
      refine Ty.subst_eq_self fun source inside => fixed source fun generic => ?_
      have param : kept.subst values ∈ assumptions.params := by
        rw [← fits.params]
        exact List.mem_map_of_mem keptMember
      refine generic _ param ?_
      rw [← fits.solves.subst_solved wellFormed]
      exact Ty.mem_vars_subst.mpr ⟨id, within, inside⟩

/-- A name of a scheme is bound to a type that grants its instances. -/
theorem find? (fits : session.Fits settled values assumptions) {name : String} {scheme : Scheme}
    (found : assumptions.schemes.lookup name = some scheme) {ty : Ty}
    (instance_ : scheme.Instance ty) :
    ∃ stored, session.scopes.find? name = some stored ∧
      Grants settled session.arena values stored ty := by
  rw [Scopes.find?_eq_lookup]
  have names := fits.names
  generalize session.scopes.bindings = bindings at names
  generalize assumptions.schemes = schemes at names found
  induction names with
  | nil => cases found
  | @cons entry binding _ _ provides rest inductionHypothesis =>
    obtain ⟨entryName, entryScheme⟩ := entry
    obtain ⟨bound, stored⟩ := binding
    obtain rfl : entryName = bound := provides.name_eq
    rw [List.lookup_cons] at found ⊢
    cases same : name == entryName with
    | true =>
      rw [same] at found
      obtain rfl := Option.some.inj found
      exact ⟨stored, rfl, provides.grants ty instance_⟩
    | false =>
      rw [same] at found
      exact inductionHypothesis found

end Fits

/-! ### Parameters -/

theorem paramTy_attains (valued : session.Valued settled values) {declared : Option WrittenType}
    {value : Ty} (agrees : Declared declared value) :
    Ensures
      (match declared with
        | some written => ofWritten written
        | none => fresh) session
      fun ty after => ∃ values', session.Attains settled values value ty after values' := by
  cases declared with
  | none => exact fresh_attains valued value
  | some written => exact ofWritten_attains written valued (agrees written rfl)

theorem inferParam_fits (fits : session.Fits settled values assumptions) {param : Param}
    {value : Ty} (agrees : Declared param.declared value) :
    Ensures (inferParam param) session fun result after => ∃ values',
      session.Realises values after values' ∧
        after.Fits settled values' (assumptions.bindParam param.name value) ∧
        after.arena.Covers result.2 ∧ result.2.subst values' = value := by
  obtain ⟨name, declared, info⟩ := param
  have typed := paramTy_attains fits.toValued agrees
  match declared, typed with
  | none, typed | some _, typed =>
    refine Ensures.bind typed fun ty after holds => ?_
    obtain ⟨values', attains⟩ := holds
    refine Ensures.modify_bind (Ensures.modify_bind (Ensures.pure ?_))
    have fits' := (fits.follow attains.toFollows).bindParam attains.apart name
    rw [attains.value_eq] at fits'
    exact ⟨values', attains.toRealises.rescope _ _, fits', attains.apart.covers,
      attains.value_eq⟩

theorem inferParams_fits {params : List Param} {targets : List Ty}
    (declared : List.Forall₂ (fun param ty => Declared param.declared ty) params targets)
    {values : VarId → Ty} {assumptions : Assumptions} {session : Session}
    (fits : session.Fits settled values assumptions) :
    Ensures (inferParams params) session fun result after => ∃ values',
      session.Realises values after values' ∧
        after.Fits settled values' (assumptions.enter params targets) ∧
        after.arena.CoversEach result.2 ∧ result.2.map (Ty.subst values') = targets := by
  induction declared generalizing values assumptions session with
  | nil =>
    exact Ensures.pure ⟨values, (Follows.refl fits.toValued).toRealises, fits, coversEach_nil _,
      rfl⟩
  | @cons param target params targets agrees rest inductionHypothesis =>
    refine Ensures.bind (inferParam_fits fits agrees) ?_
    rintro ⟨param', ty⟩ middle ⟨values', realises, fits', covers, valueIs⟩
    refine Ensures.bind (inductionHypothesis fits') ?_
    rintro ⟨params', tys⟩ after ⟨values'', realises', fits'', coversRest, valuesAre⟩
    refine Ensures.pure ⟨values'', realises.trans realises', fits'',
      List.forall_mem_cons.mpr ⟨?_, coversRest⟩, ?_⟩
    · exact fun id occurs => (covers id occurs).trans_le realises'.size_le
    · rw [List.map_cons, realises'.subst_eq covers, valueIs, valuesAre]

end Session

/-! ### What inference finds, by kind of tree -/

/-- Inference gives the expression a type of which every type that the rules assign to it is a
value, and reports nothing if there is one. -/
def Expr.Completes (expr : Expr) : Prop :=
  .add ∉ expr.operators → ∀ ⦃settled : Set VarId⦄ ⦃values : VarId → Ty⦄
    ⦃assumptions : Assumptions⦄ ⦃session : Session⦄ ⦃value : Ty⦄,
    session.Fits settled values assumptions → expr.HasType assumptions value →
    Ensures (Session.inferExpr expr) session fun result after =>
      ∃ values', session.Attains settled values value result.2 after values'

/-- Inference does so for each of the arguments. -/
def Expr.CompletesAll (arguments : List Expr) : Prop :=
  .add ∉ Expr.operatorsAll arguments → ∀ ⦃settled : Set VarId⦄ ⦃values : VarId → Ty⦄
    ⦃assumptions : Assumptions⦄ ⦃session : Session⦄ ⦃targets : List Ty⦄,
    session.Fits settled values assumptions → Expr.HasTypes assumptions arguments targets →
    Ensures (Session.inferArguments arguments) session fun result after =>
      ∃ values', session.Follows settled values after values' ∧
        (∀ argument ∈ result.2, after.arena.Apart settled argument.2) ∧
        (result.2.map Prod.snd).map (Ty.subst values') = targets

/-- Inference does so for elements that share a type. -/
def Expr.CompletesEach (elements : List Expr) : Prop :=
  .add ∉ Expr.operatorsAll elements → ∀ ⦃settled : Set VarId⦄ ⦃values : VarId → Ty⦄
    ⦃assumptions : Assumptions⦄ ⦃session : Session⦄ ⦃element value : Ty⦄,
    session.Fits settled values assumptions →
    Expr.HasTypes assumptions elements (List.replicate elements.length value) →
    session.arena.Apart settled element → element.subst values = value →
    Ensures (Session.inferElements element elements) session fun _ after =>
      ∃ values', session.Follows settled values after values'

/-- Inference does so for the result of the body. -/
def Body.Completes (body : Body) : Prop :=
  .add ∉ body.operators → ∀ ⦃settled : Set VarId⦄ ⦃values : VarId → Ty⦄
    ⦃assumptions : Assumptions⦄ ⦃session : Session⦄ ⦃value : Ty⦄,
    session.Fits settled values assumptions → body.HasType assumptions value →
    Ensures (Session.inferBody body) session fun result after =>
      ∃ values', session.Realises values after values' ∧ result.2.subst values' = value

/-- Inference does so for the result of the block. -/
def Stmt.CompletesBlock (statements : List Stmt) : Prop :=
  .add ∉ Stmt.operatorsAll statements → ∀ ⦃settled : Set VarId⦄ ⦃values : VarId → Ty⦄
    ⦃assumptions : Assumptions⦄ ⦃session : Session⦄ ⦃value : Ty⦄,
    session.Fits settled values assumptions → Stmt.HasResult assumptions statements value →
    Ensures (Session.inferBlock statements) session fun result after =>
      ∃ values', session.Realises values after values' ∧ result.2.subst values' = value

/-- Inference does so for the statement, and the session then serves the assumptions that it
leaves. -/
def Stmt.Completes (statement : Stmt) : Prop :=
  .add ∉ statement.operators → ∀ ⦃settled : Set VarId⦄ ⦃values : VarId → Ty⦄
    ⦃assumptions assumptions' : Assumptions⦄ ⦃session : Session⦄ ⦃value : Ty⦄,
    session.Fits settled values assumptions →
    Stmt.HasType assumptions statement value assumptions' →
    Ensures (Session.inferStmt statement) session fun result after =>
      ∃ more values', session.Realises values after values' ∧ result.2.subst values' = value ∧
        after.Fits more values' assumptions' ∧ result.1.isReturn = false

namespace Session

theorem notMem_append {operator : Operator} {first second : List Operator}
    (absent : operator ∉ first ++ second) : operator ∉ first ∧ operator ∉ second :=
  not_or.mp (List.mem_append.not.mp absent)

/-! ### Expressions -/

theorem completes_number (number : Binary64) (info : Info) :
    (Expr.number number info).Completes := by
  intro _ settled values assumptions session value fits typed
  cases typed with
  | number literal =>
    subst literal
    refine Ensures.pure ⟨values, .refl fits.toValued, ?_, ?_⟩ <;> split_ifs <;>
      first
      | exact apart_prim _
      | exact Ty.subst_prim _ _

theorem completes_string (text : String) (info : Info) : (Expr.string text info).Completes := by
  intro _ settled values assumptions session value fits typed
  cases typed with
  | string => exact Ensures.pure ⟨values, attains_prim fits.toValued _⟩

theorem completes_bool (truth : Bool) (info : Info) : (Expr.bool truth info).Completes := by
  intro _ settled values assumptions session value fits typed
  cases typed with
  | bool => exact Ensures.pure ⟨values, attains_prim fits.toValued _⟩

theorem completes_ident (name : String) (info : Info) : (Expr.ident name info).Completes := by
  intro _ settled values assumptions session value fits typed
  cases typed with
  | ident found instance_ =>
    obtain ⟨stored, found, grants⟩ := fits.find? found instance_
    refine Ensures.bind (inferIdent_attains fits.toValued found grants info.span) ?_
    rintro ty after ⟨values', attains⟩
    exact Ensures.pure ⟨values', attains⟩

theorem completes_binary (operator : Operator) (info : Info) {left right : Expr}
    (leftCompletes : left.Completes) (rightCompletes : right.Completes) :
    (Expr.binary operator left right info).Completes := by
  intro noSum settled values assumptions session value fits typed
  rw [Expr.operators, List.mem_cons, not_or] at noSum
  obtain ⟨noSumLeft, noSumRight⟩ := notMem_append noSum.2
  cases typed with
  | binary first second types =>
    refine Ensures.bind (leftCompletes noSumLeft fits first) ?_
    rintro ⟨left', leftTy⟩ middle ⟨values', attains⟩
    have fits' := fits.follow attains.toFollows
    refine Ensures.bind (rightCompletes noSumRight fits' second) ?_
    rintro ⟨right', rightTy⟩ middle' ⟨values'', attains'⟩
    have left := attains.follow attains'.toFollows
    rw [← left.value_eq, ← attains'.value_eq] at types
    refine Ensures.bind (solveBinary_attains (fits'.follow attains'.toFollows).toValued
      (Ne.symm noSum.1) info.span left.apart attains'.apart types) fun ty after last => ?_
    exact Ensures.pure ⟨values'', left.toFollows.attains last⟩

theorem completes_conditional (info : Info) {test consequent alternate : Expr}
    (testCompletes : test.Completes) (consequentCompletes : consequent.Completes)
    (alternateCompletes : alternate.Completes) :
    (Expr.conditional test consequent alternate info).Completes := by
  intro noSum settled values assumptions session value fits typed
  rw [Expr.operators] at noSum
  obtain ⟨noSumTest, noSum⟩ := notMem_append noSum
  obtain ⟨noSumConsequent, noSumAlternate⟩ := notMem_append noSum
  cases typed with
  | conditional first second third =>
    refine Ensures.bind (testCompletes noSumTest fits first) ?_
    rintro ⟨test', testTy⟩ middle ⟨values1, tested⟩
    have fits1 := fits.follow tested.toFollows
    refine Ensures.bind (unify_follows fits1.toValued _ tested.apart (apart_prim _)
      tested.value_eq) fun _ middle step => ?_
    have fits2 := fits1.follow step
    refine Ensures.bind (consequentCompletes noSumConsequent fits2 second) ?_
    rintro ⟨consequent', consequentTy⟩ middle ⟨values2, chosen⟩
    have fits3 := fits2.follow chosen.toFollows
    refine Ensures.bind (alternateCompletes noSumAlternate fits3 third) ?_
    rintro ⟨alternate', alternateTy⟩ middle ⟨values3, chosen'⟩
    have fits4 := fits3.follow chosen'.toFollows
    refine Ensures.bind (fresh_attains fits4.toValued value) ?_
    rintro ty middle ⟨values4, created⟩
    have fits5 := fits4.follow created.toFollows
    have left := (chosen.follow chosen'.toFollows).follow created.toFollows
    have right := chosen'.follow created.toFollows
    refine Ensures.bind (unify_follows fits5.toValued _ left.apart created.apart
      (left.value_eq.trans created.value_eq.symm)) fun _ middle meet => ?_
    have right' := right.follow meet
    have created' := created.follow meet
    refine Ensures.bind (unify_follows (fits5.follow meet).toValued _ right'.apart created'.apart
      (right'.value_eq.trans created'.value_eq.symm)) fun _ after meet' => ?_
    have before := ((tested.toFollows.trans step).trans chosen.toFollows).trans chosen'.toFollows
    exact Ensures.pure ⟨values4, before.attains (created'.follow meet')⟩

theorem completes_call (info : Info) {callee : Expr} {arguments : List Expr}
    (calleeCompletes : callee.Completes) (argumentsComplete : Expr.CompletesAll arguments) :
    (Expr.call callee arguments info).Completes := by
  intro noSum settled values assumptions session value fits typed
  rw [Expr.operators] at noSum
  obtain ⟨noSumCallee, noSumArguments⟩ := notMem_append noSum
  cases typed with
  | call first second =>
    refine Ensures.bind (calleeCompletes noSumCallee fits first) ?_
    rintro ⟨callee', calleeTy⟩ middle ⟨values1, called⟩
    have fits1 := fits.follow called.toFollows
    refine Ensures.bind (compress_attains fits1.toValued called.apart) fun known middle head => ?_
    have fits2 := fits1.follow head.toFollows
    refine Ensures.bind (argumentsComplete noSumArguments fits2 second) ?_
    rintro ⟨arguments', types⟩ middle ⟨values2, follows, apart, valuesAre⟩
    have known' := head.follow follows
    have calleeIs : known.subst values2 =
        .fn ((types.map Prod.snd).map (Ty.subst values2)) value := by
      rw [known'.value_eq, called.value_eq, valuesAre]
    refine Ensures.bind (solveCall_attains (fits2.follow follows).toValued known'.apart apart
      calleeIs info.span) ?_
    rintro ty after ⟨values3, last⟩
    exact Ensures.pure ⟨values3, (called.toFollows.trans known'.toFollows).attains last⟩

theorem completes_array_nil (info : Info) : (Expr.array [] info).Completes := by
  intro _ settled values assumptions session value fits typed
  cases typed with
  | @array _ _ _ ty _ =>
    refine Ensures.bind (fresh_attains fits.toValued ty) ?_
    rintro element after ⟨values', created⟩
    refine Ensures.pure ⟨values', created.toFollows, apart_array.mpr created.apart, ?_⟩
    rw [Ty.subst_array, created.value_eq]

theorem completes_array_cons (info : Info) {head : Expr} {rest : List Expr}
    (headCompletes : head.Completes) (restCompletes : Expr.CompletesEach rest) :
    (Expr.array (head :: rest) info).Completes := by
  intro noSum settled values assumptions session value fits typed
  rw [Expr.operators, Expr.operatorsAll] at noSum
  obtain ⟨noSumHead, noSumRest⟩ := notMem_append noSum
  cases typed with
  | array each =>
    cases each with
    | cons first others =>
      refine Ensures.bind (headCompletes noSumHead fits first) ?_
      rintro ⟨head', element⟩ middle ⟨values', attains⟩
      refine Ensures.bind (restCompletes noSumRest (fits.follow attains.toFollows) others
        attains.apart attains.value_eq) ?_
      rintro rest' after ⟨values'', follows⟩
      have element' := attains.follow follows
      refine Ensures.pure ⟨values'', element'.toFollows, apart_array.mpr element'.apart, ?_⟩
      rw [Ty.subst_array, element'.value_eq]

theorem completes_index (info : Info) {object position : Expr} (objectCompletes : object.Completes)
    (positionCompletes : position.Completes) : (Expr.index object position info).Completes := by
  intro noSum settled values assumptions session value fits typed
  rw [Expr.operators] at noSum
  obtain ⟨noSumObject, noSumPosition⟩ := notMem_append noSum
  cases typed with
  | index first second =>
    refine Ensures.bind (positionCompletes noSumPosition fits first) ?_
    rintro ⟨position', positionTy⟩ middle ⟨values1, placed⟩
    have fits1 := fits.follow placed.toFollows
    refine Ensures.bind (unify_follows fits1.toValued _ placed.apart (apart_prim _)
      placed.value_eq) fun _ middle step => ?_
    have fits2 := fits1.follow step
    refine Ensures.bind (objectCompletes noSumObject fits2 second) ?_
    rintro ⟨object', objectTy⟩ middle ⟨values2, attains⟩
    refine Ensures.bind (solveIndex_attains (fits2.follow attains.toFollows).toValued attains.apart
      attains.value_eq _) ?_
    rintro ty after ⟨values3, last⟩
    exact Ensures.pure ⟨values3,
      ((placed.toFollows.trans step).trans attains.toFollows).attains last⟩

theorem completes_arrow (params : List Param) (result : Option WrittenType) (info : Info)
    {body : Body} (bodyCompletes : body.Completes) :
    (Expr.arrow params result body info).Completes := by
  intro noSum settled values assumptions session value fits typed
  rw [Expr.operators] at noSum
  cases typed with
  | @arrow _ _ _ _ _ targets target declared inner agrees =>
    have found : Ensures (inferExpr (.arrow params result body info)) session fun result after =>
        ∃ values', session.Realises values after values' ∧
          result.2.subst values' = .fn targets target := by
      refine Ensures.modify_bind (Ensures.bind (inferParams_fits declared fits.push) ?_)
      rintro ⟨params', paramTys⟩ entered ⟨values1, realises1, fits1, covers, paramsAre⟩
      refine Ensures.bind ((bodyCompletes noSum fits1 inner).and
        (inferBody_framed body fits1.ready)) ?_
      rintro ⟨body', bodyTy⟩ now ⟨⟨values2, realises2, bodyIs⟩, continues, apart, _⟩
      refine Ensures.bind (meetDeclared_attains ⟨continues.ready, realises2.solves⟩ apart bodyIs
        agrees _) ?_
      rintro resultTy met ⟨values3, attains⟩
      have ready := attains.ready continues.ready
      have popped : Valued ∅ values3 { met with scopes := met.scopes.pop } :=
        ⟨ready_empty ready.wellFormed (Scopes.forall_mem_pop ready.covers), attains.solves⟩
      refine Ensures.modify_bind (Ensures.bind (compress_attains popped
        (apart_empty attains.apart.covers)) ?_)
      intro resultTy' after head
      -- Entering and closing the scope of the function changes none of the values.
      have inside := realises2.trans (attains.toRealises.trans
        (head.toRealises.rescope met.scopes after.scopes))
      refine Ensures.pure ⟨values3, (realises1.trans inside).rescope _ _, ?_⟩
      rw [Ty.subst_fn, head.value_eq, attains.value_eq, ← paramsAre, inside.map_subst_eq covers]
    refine ((inferExpr_framed (.arrow params result body info) fits.ready).and found).mono ?_
    rintro typed after ⟨⟨yields, _⟩, values', realises, valueIs⟩
    exact ⟨values', ⟨yields.toAdvances, realises⟩, yields.apart, valueIs⟩

theorem completesAll_nil : Expr.CompletesAll [] := by
  intro _ settled values assumptions session targets fits typed
  cases typed with
  | nil => exact Ensures.pure ⟨values, .refl fits.toValued, List.forall_mem_nil _, rfl⟩

theorem completesAll_cons {head : Expr} {tail : List Expr} (headCompletes : head.Completes)
    (tailCompletes : Expr.CompletesAll tail) : Expr.CompletesAll (head :: tail) := by
  intro noSum settled values assumptions session targets fits typed
  rw [Expr.operatorsAll] at noSum
  obtain ⟨noSumHead, noSumTail⟩ := notMem_append noSum
  cases typed with
  | cons first rest =>
    refine Ensures.bind (headCompletes noSumHead fits first) ?_
    rintro ⟨head', ty⟩ middle ⟨values', attains⟩
    refine Ensures.bind (tailCompletes noSumTail (fits.follow attains.toFollows) rest) ?_
    rintro ⟨tail', types⟩ after ⟨values'', follows, apart, valuesAre⟩
    have head := attains.follow follows
    refine Ensures.pure ⟨values'', head.toFollows, List.forall_mem_cons.mpr ⟨head.apart, apart⟩, ?_⟩
    rw [List.map_cons, List.map_cons, head.value_eq, valuesAre]

theorem completesEach_nil : Expr.CompletesEach [] := by
  intro _ settled values assumptions session element value fits _ _ _
  exact Ensures.pure ⟨values, .refl fits.toValued⟩

theorem completesEach_cons {head : Expr} {tail : List Expr} (headCompletes : head.Completes)
    (tailCompletes : Expr.CompletesEach tail) : Expr.CompletesEach (head :: tail) := by
  intro noSum settled values assumptions session element value fits typed apart elementIs
  rw [Expr.operatorsAll] at noSum
  obtain ⟨noSumHead, noSumTail⟩ := notMem_append noSum
  cases typed with
  | cons first rest =>
    refine Ensures.bind (headCompletes noSumHead fits first) ?_
    rintro ⟨head', ty⟩ middle ⟨values', attains⟩
    have fits' := fits.follow attains.toFollows
    have elementIs' := (attains.subst_eq apart.covers).trans elementIs
    refine Ensures.bind (unify_follows fits'.toValued _ attains.apart (attains.keeps apart)
      (attains.value_eq.trans elementIs'.symm)) fun _ middle step => ?_
    refine Ensures.bind (tailCompletes noSumTail (fits'.follow step) rest
      (step.keeps (attains.keeps apart)) elementIs') ?_
    rintro tail' after ⟨values'', follows⟩
    exact Ensures.pure ⟨values'', (attains.toFollows.trans step).trans follows⟩

/-! ### Bodies and statements -/

theorem completes_value {value : Expr} (valueCompletes : value.Completes) :
    (Body.value value).Completes := by
  intro noSum settled values assumptions session target fits typed
  cases typed with
  | value inner =>
    refine Ensures.bind (valueCompletes noSum fits inner) ?_
    rintro ⟨value', ty⟩ after ⟨values', attains⟩
    exact Ensures.pure ⟨values', attains.toRealises, attains.value_eq⟩

theorem completes_block {statements : List Stmt} (completes : Stmt.CompletesBlock statements) :
    (Body.block statements).Completes := by
  intro noSum settled values assumptions session target fits typed
  cases typed with
  | block inner =>
    refine Ensures.bind (completes noSum fits inner) ?_
    rintro ⟨statements', ty⟩ after holds
    exact Ensures.pure holds

theorem completesBlock_nil : Stmt.CompletesBlock [] := by
  intro _ settled values assumptions session target fits typed
  cases typed with
  | nil =>
    exact Ensures.pure ⟨values, (Follows.refl fits.toValued).toRealises, Ty.subst_prim _ _⟩

/-- A return at the end gives its type to the block. -/
theorem inferBlock_return (statement : Stmt) {value : Ty}
    (returned : Ensures (inferStmt statement) session fun result after =>
      result.1.isReturn = true ∧
        ∃ values', session.Realises values after values' ∧ result.2.subst values' = value) :
    Ensures (inferBlock [statement]) session fun result after =>
      ∃ values', session.Realises values after values' ∧ result.2.subst values' = value := by
  refine Ensures.bind returned ?_
  rintro ⟨statement', ty⟩ after ⟨returns, holds⟩
  show Ensures (if _ then _ else _) _ _
  rw [if_pos ⟨returns, rfl⟩]
  exact Ensures.pure holds

theorem completesBlock_return_some {argument : Expr} (info : Info) (tail : List Stmt)
    (completes : argument.Completes) :
    Stmt.CompletesBlock (.return (some argument) info :: tail) := by
  intro noSum settled values assumptions session target fits typed
  rw [Stmt.operatorsAll, Stmt.operators] at noSum
  cases typed with
  | cons first _ => cases first
  | returnValue inner =>
    refine inferBlock_return (.return (some argument) info) ?_
    refine Ensures.bind (completes (notMem_append noSum).1 fits inner) ?_
    rintro ⟨argument', ty⟩ after ⟨values', attains⟩
    exact Ensures.pure ⟨rfl, values', attains.toRealises, attains.value_eq⟩

theorem completesBlock_return_none (info : Info) (tail : List Stmt) :
    Stmt.CompletesBlock (.return none info :: tail) := by
  intro _ settled values assumptions session target fits typed
  cases typed with
  | cons first _ => cases first
  | returnNothing =>
    refine inferBlock_return (.return none info) ?_
    exact Ensures.pure ⟨rfl, values, (Follows.refl fits.toValued).toRealises, Ty.subst_prim _ _⟩

theorem reportEarlyReturn_eq_pure {statement : Stmt} (notReturn : statement.isReturn = false) :
    reportEarlyReturn statement = pure () := by
  rw [reportEarlyReturn, notReturn]
  rfl

theorem completesBlock_cons {head : Stmt} {tail : List Stmt} (notReturn : head.isReturn = false)
    (headCompletes : head.Completes) (tailCompletes : Stmt.CompletesBlock tail) :
    Stmt.CompletesBlock (head :: tail) := by
  intro noSum settled values assumptions session target fits typed
  rw [Stmt.operatorsAll] at noSum
  obtain ⟨noSumHead, noSumTail⟩ := notMem_append noSum
  cases typed with
  | returnValue _ => cases notReturn
  | returnNothing => cases notReturn
  | cons first rest =>
    refine Ensures.bind (headCompletes noSumHead fits first) ?_
    rintro ⟨head', ty⟩ middle ⟨more, values', realises, _, fits', stays⟩
    show Ensures (if _ then _ else _) _ _
    rw [if_neg fun both => Bool.false_ne_true (stays.symm.trans both.1),
      reportEarlyReturn_eq_pure stays, pure_bind]
    refine Ensures.bind (tailCompletes noSumTail fits' rest) ?_
    rintro ⟨tail', result⟩ after ⟨values'', realises', resultIs⟩
    exact Ensures.pure ⟨values'', realises.trans realises', resultIs⟩

theorem completes_const (name : String) (declared : Option WrittenType) (info : Info) {init : Expr}
    (initCompletes : init.Completes) : (Stmt.const name declared init info).Completes := by
  intro noSum settled values assumptions assumptions' session value fits typed
  cases typed with
  | const inner agrees =>
    refine Ensures.bind (initCompletes noSum fits inner) ?_
    rintro ⟨init', initTy⟩ middle ⟨values', attains⟩
    have fits' := fits.follow attains.toFollows
    refine Ensures.bind (meetDeclared_attains fits'.toValued attains.apart attains.value_eq
      agrees _) ?_
    rintro ty after ⟨values'', met⟩
    obtain ⟨more, fits''⟩ := (fits'.follow met.toFollows).declare met.apart.covers name
    rw [met.value_eq] at fits''
    exact Ensures.modify_bind (Ensures.pure ⟨more, values'',
      (attains.toRealises.trans met.toRealises).rescope _ _, met.value_eq, fits'', rfl⟩)

theorem completes_expr {value : Expr} (valueCompletes : value.Completes) :
    (Stmt.expr value).Completes := by
  intro noSum settled values assumptions assumptions' session target fits typed
  cases typed with
  | expr inner =>
    refine Ensures.bind (valueCompletes noSum fits inner) ?_
    rintro ⟨value', ty⟩ after ⟨values', attains⟩
    exact Ensures.pure ⟨settled, values', attains.toRealises, attains.value_eq,
      fits.follow attains.toFollows, rfl⟩

/-! ### Whole trees -/

mutual

/-- Inference finds the most general type of every expression without a sum. -/
theorem inferExpr_completes : (expr : Expr) → expr.Completes
  | .number number info => completes_number number info
  | .string text info => completes_string text info
  | .bool truth info => completes_bool truth info
  | .ident name info => completes_ident name info
  | .binary operator left right info =>
    completes_binary operator info (inferExpr_completes left) (inferExpr_completes right)
  | .conditional test consequent alternate info =>
    completes_conditional info (inferExpr_completes test) (inferExpr_completes consequent)
      (inferExpr_completes alternate)
  | .arrow params result body info => completes_arrow params result info (inferBody_completes body)
  | .call callee arguments info =>
    completes_call info (inferExpr_completes callee) (inferArguments_complete arguments)
  | .array [] info => completes_array_nil info
  | .array (head :: rest) info =>
    completes_array_cons info (inferExpr_completes head) (inferElements_complete rest)
  | .index object position info =>
    completes_index info (inferExpr_completes object) (inferExpr_completes position)

theorem inferArguments_complete : (arguments : List Expr) → Expr.CompletesAll arguments
  | [] => completesAll_nil
  | head :: tail => completesAll_cons (inferExpr_completes head) (inferArguments_complete tail)

theorem inferElements_complete : (elements : List Expr) → Expr.CompletesEach elements
  | [] => completesEach_nil
  | head :: tail => completesEach_cons (inferExpr_completes head) (inferElements_complete tail)

theorem inferBody_completes : (body : Body) → body.Completes
  | .value value => completes_value (inferExpr_completes value)
  | .block statements => completes_block (inferBlock_completes statements)

theorem inferBlock_completes : (statements : List Stmt) → Stmt.CompletesBlock statements
  | [] => completesBlock_nil
  | .return (some argument) info :: tail =>
    completesBlock_return_some info tail (inferExpr_completes argument)
  | .return none info :: tail => completesBlock_return_none info tail
  | .const name declared init info :: tail =>
    completesBlock_cons rfl (completes_const name declared info (inferExpr_completes init))
      (inferBlock_completes tail)
  | .expr value :: tail =>
    completesBlock_cons rfl (completes_expr (inferExpr_completes value))
      (inferBlock_completes tail)

end

/-- Inference finds the most general type of every statement without a sum. -/
theorem inferStmt_completes (statement : Stmt) : statement.Completes := by
  cases statement with
  | const name declared init info =>
    exact completes_const name declared info (inferExpr_completes init)
  | expr value => exact completes_expr (inferExpr_completes value)
  | «return» argument info =>
    intro _ settled values assumptions assumptions' session value _ typed
    cases typed

/-! ### Whole programs -/

theorem new_fits (lossy : Bool) : (new lossy).Fits ∅ .var {} :=
  ⟨⟨new_ready lossy, fun id ty target => by
    rw [target_eq_none_of_size_le (Nat.zero_le id)] at target
    cases target⟩, rfl, .nil⟩

theorem inferStmts_complete {statements : List Stmt} {targets : List Ty}
    (noSum : .add ∉ Stmt.operatorsAll statements)
    (typed : Stmt.HasTypes assumptions statements targets)
    (fits : session.Fits settled values assumptions) :
    Ensures (inferStmts statements) session fun result after => ∃ values',
      session.Realises values after values' ∧ result.2.map (Ty.subst values') = targets := by
  induction typed generalizing settled values session with
  | nil => exact Ensures.pure ⟨values, (Follows.refl fits.toValued).toRealises, rfl⟩
  | @cons assumptions assumptions' head tail target targets first rest inductionHypothesis =>
    rw [Stmt.operatorsAll] at noSum
    obtain ⟨noSumHead, noSumTail⟩ := notMem_append noSum
    refine Ensures.bind ((inferStmt_completes head noSumHead fits first).and
      (inferStmt_framed head fits.ready)) ?_
    rintro ⟨head', ty⟩ middle ⟨⟨more, values', realises, valueIs, fits', _⟩, _, apart, _⟩
    refine Ensures.bind (inductionHypothesis noSumTail fits') ?_
    rintro ⟨tail', tys⟩ after ⟨values'', realises', valuesAre⟩
    refine Ensures.pure ⟨values'', realises.trans realises', ?_⟩
    rw [List.map_cons, realises'.subst_eq apart.covers, valueIs, valuesAre]

theorem infer_complete (program : Program) (lossy : Bool) (noSum : .add ∉ program.operators)
    {ty : Ty} (typed : program.HasType ty) :
    Ensures (infer program) (new lossy) fun result _ => result.2.diagnostics = [] ∧
      ∃ principal values, result.2.programTy = some principal ∧ ty = principal.subst values := by
  obtain ⟨targets, typed, rfl⟩ := typed
  refine (infer_fills (new_ready lossy) program).mono ?_
  rintro ⟨typedProgram, outcome⟩ after ⟨statements, tys, now, ran, continues, _, _, reported, found⟩
  have complete := inferStmts_complete noSum typed (new_fits lossy)
  rw [Ensures, ran] at complete
  obtain ⟨values, realises, valuesAre⟩ := complete
  refine ⟨reported.trans realises.silent, _, values, found, ?_⟩
  rw [realises.solves.subst_solved continues.ready.wellFormed, ← valuesAre]
  calc (tys.map (Ty.subst values)).getLastD .void
    _ = (tys.map (Ty.subst values)).getLastD (Ty.void.subst values) := by
      rw [Ty.void, Ty.subst_prim]
    _ = (tys.getLastD .void).subst values := List.getLastD_map

/-- The type that inference gives is one that the rules have for the program, if nothing is reported
and no return stands outside of a function. -/
theorem infer_hasType (program : Program) (lossy : Bool)
    (continue_ : ∀ statement ∈ program.body, statement.isReturn = false) :
    Ensures (infer program) (new lossy) fun result _ => result.2.diagnostics = [] →
      ∃ ty, result.2.programTy = some ty ∧ program.HasType ty := by
  refine (infer_fills (new_ready lossy) program).mono ?_
  rintro ⟨typedProgram, outcome⟩ after ⟨statements, tys, now, ran, _, _, _, reported, found⟩ silent
  have elaborate := inferStmts_elaborate ran (reported.symm.trans silent)
  refine ⟨_, found, tys.map now.arena.solved, ?_, (getLastD_map_solved _ _).symm⟩
  exact elaborate.hasTypes continue_ Assumptions.subsumes_empty

/-- If the rules have a type for a program without a sum, inference in a new session reports
nothing. The type that it gives is one that the rules have for the program, and every other such
type is an instance of it. -/
theorem infer_principal (program : Program) (lossy : Bool) (noSum : .add ∉ program.operators)
    (typed : ∃ ty, program.HasType ty) :
    let outcome := (infer program (new lossy)).1.2
    outcome.diagnostics = [] ∧ ∃ principal, outcome.programTy = some principal ∧
      program.HasType principal ∧
      ∀ ty, program.HasType ty → ∃ values, ty = principal.subst values := by
  intro outcome
  obtain ⟨first, typed⟩ := typed
  obtain ⟨silent, _⟩ := infer_complete program lossy noSum typed
  obtain ⟨_, statementsTyped, _⟩ := typed
  obtain ⟨principal, found, hasType⟩ :=
    infer_hasType program lossy statementsTyped.continues silent
  refine ⟨silent, principal, found, hasType, fun ty typed' => ?_⟩
  obtain ⟨_, other, values, found', instance_⟩ := infer_complete program lossy noSum typed'
  rw [found, Option.some_inj] at found'
  rw [found']
  exact ⟨values, instance_⟩

/-- The identity function applied to itself is a function from truth values to truth values, which
is an instance of the type that inference gives. -/
theorem self_application_principal :
    let identity := Expr.arrow [⟨"x", none, {}⟩] none (.value (.ident "x" {})) {}
    let program : Program := ⟨[.const "identity" none identity {},
      .expr (.call (.ident "identity" {}) [.ident "identity" {}] {})], {}⟩
    let outcome := (infer program (new false)).1.2
    Operator.add ∉ program.operators ∧ program.HasType (.fn [.bool] .bool) ∧
      outcome.diagnostics = [] ∧ ∃ principal values, outcome.programTy = some principal ∧
        program.HasType principal ∧ .fn [.bool] .bool = principal.subst values := by
  intro identity program outcome
  have identityTyped : identity.HasType {} (.fn [.var 0] (.var 0)) :=
    .arrow (.cons (declared_none _) .nil)
      (.value (.ident rfl ⟨.var, rfl, fun _ _ => rfl⟩)) (declared_none _)
  have used (ty : Ty) : Expr.HasType (({} : Assumptions).declare "identity" (.fn [.var 0] (.var 0)))
      (.ident "identity" {}) (.fn [ty] ty) :=
    .ident rfl ⟨fun _ => ty, rfl, fun id notGeneric => absurd (List.forall_mem_nil _) notGeneric⟩
  have typed : program.HasType (.fn [.bool] .bool) :=
    ⟨_, .cons (.const identityTyped (declared_none _))
      (.cons (.expr (.call (used _) (.cons (used .bool) .nil))) .nil), rfl⟩
  obtain ⟨silent, principal, found, hasType, instances⟩ :=
    infer_principal program false List.not_mem_nil ⟨_, typed⟩
  obtain ⟨values, instance_⟩ := instances _ typed
  exact ⟨List.not_mem_nil, typed, silent, principal, values, found, hasType, instance_⟩

end Session

end ArrowCheck
