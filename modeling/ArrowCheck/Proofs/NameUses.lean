/-
This file proves that the check of names and inference agree on which names are
visible where. Each walks over the tree with scopes of its own: the one knows the
names that are declared, the other a type for each name that is bound. The names
are the same at every place, in the same order, so both complain about the same
uses of names. They need not complain in the same order, since inference looks at
an index before it looks at what is indexed.
-/

import ArrowCheck.Proofs.Polymorphism
import ArrowCheck.Proofs.Programs
import ArrowCheck.Proofs.UnboundReports

namespace ArrowCheck

/-! ### What the check of names reports about uses -/

namespace Diagnostic

/-- The use of a name that the check of names calls unresolved. -/
def unresolvedUse? (diagnostic : Diagnostic) : Option Use :=
  if diagnostic.code = some "unresolved-name" then
    (Text.between? "`" "` is used before it is declared" diagnostic.message).map
      fun name => (name, diagnostic.span)
  else none

/-- The uses of names that the check of names calls unresolved. -/
def unresolvedUses (diagnostics : List Diagnostic) : List Use :=
  diagnostics.filterMap unresolvedUse?

@[simp] theorem unresolvedUses_append (first second : List Diagnostic) :
    unresolvedUses (first ++ second) = unresolvedUses first ++ unresolvedUses second :=
  List.filterMap_append

theorem unresolvedUse?_unresolved (name : String) (span : Option Span) :
    (NameFault.diagnostic (.unresolved name) span).unresolvedUse? = some (name, span) :=
  congrArg (Option.map fun name => (name, span)) (Text.between?_append _ name _)

theorem unresolvedUse?_duplicate (name : String) (span : Option Span) :
    (NameFault.diagnostic (.duplicate name) span).unresolvedUse? = none := by
  have other : (NameFault.duplicate name).code ≠ "unresolved-name" := by simp [NameFault.code]
  exact if_neg fun same => other (Option.some.inj same)

end Diagnostic

open Diagnostic

namespace NameScope

/-- The names that are visible, from the inside to the outside. -/
def visible (names : NameScope) : List String :=
  names.inner ++ names.outer

/-- The scope after a statement. -/
def after (names : NameScope) : Stmt → NameScope
  | .const name _ _ _ => names.declare name
  | .return _ _ | .expr _ => names

theorem unresolvedUses_useFaults (names : NameScope) (name : String) (span : Option Span) :
    unresolvedUses (names.useFaults name span) =
      if name ∈ names.visible then [] else [(name, span)] := by
  simp only [useFaults, visible, List.mem_append]
  split_ifs with seen
  · rfl
  · rw [unresolvedUses, List.filterMap_cons_some (unresolvedUse?_unresolved name span),
      List.filterMap_nil]

@[simp] theorem unresolvedUses_declareFaults (names : NameScope) (name : String)
    (span : Option Span) : unresolvedUses (names.declareFaults name span) = [] := by
  rw [declareFaults]
  split_ifs
  · rw [unresolvedUses, List.filterMap_cons_none (unresolvedUse?_duplicate name span),
      List.filterMap_nil]
  · rfl

@[simp] theorem unresolvedUses_paramFaults (names : NameScope) (params : List Param) :
    unresolvedUses (names.paramFaults params) = [] := by
  induction params generalizing names with
  | nil => rfl
  | cons param params inductionHypothesis =>
    rw [paramFaults, unresolvedUses_append, unresolvedUses_declareFaults, inductionHypothesis,
      List.append_nil]

end NameScope

/-- A statement is checked in its scope, and those after it in the scope that it leaves. -/
theorem Stmt.nameFaultsAll_cons (names : NameScope) (head : Stmt) (tail : List Stmt) :
    Stmt.nameFaultsAll names (head :: tail) =
      Stmt.nameFaultsAll names [head] ++ Stmt.nameFaultsAll (names.after head) tail := by
  rcases head with _ | ⟨_ | _, _⟩ | _ <;> simp [Stmt.nameFaultsAll, NameScope.after]

/-! ### Errors about names -/

theorem NameScope.isError_of_mem_useFaults {names : NameScope} {name : String} {span : Option Span}
    {diagnostic : Diagnostic} (member : diagnostic ∈ names.useFaults name span) :
    diagnostic.isError := by
  rw [useFaults] at member
  split_ifs at member
  · cases member
  · rw [List.mem_singleton.mp member]
    rfl

theorem NameScope.isError_of_mem_declareFaults {names : NameScope} {name : String}
    {span : Option Span} {diagnostic : Diagnostic}
    (member : diagnostic ∈ names.declareFaults name span) : diagnostic.isError := by
  rw [declareFaults] at member
  split_ifs at member
  · rw [List.mem_singleton.mp member]
    rfl
  · cases member

theorem NameScope.isError_of_mem_paramFaults {names : NameScope} {params : List Param}
    {diagnostic : Diagnostic} (member : diagnostic ∈ names.paramFaults params) :
    diagnostic.isError := by
  induction params generalizing names with
  | nil => cases member
  | cons param params inductionHypothesis =>
    obtain first | rest := List.mem_append.mp member
    · exact isError_of_mem_declareFaults first
    · exact inductionHypothesis rest

mutual

/-- Whatever the check of names reports is an error. -/
theorem Expr.isError_of_mem_nameFaults {names : NameScope} {diagnostic : Diagnostic} :
    (expr : Expr) → diagnostic ∈ expr.nameFaults names → diagnostic.isError
  | .number _ _, member | .string _ _, member | .bool _ _, member => by cases member
  | .ident _ _, member => NameScope.isError_of_mem_useFaults member
  | .binary _ left right _, member => by
    obtain member | member := List.mem_append.mp member
    · exact left.isError_of_mem_nameFaults member
    · exact right.isError_of_mem_nameFaults member
  | .conditional test consequent alternate _, member => by
    obtain member | member := List.mem_append.mp member
    · obtain member | member := List.mem_append.mp member
      · exact test.isError_of_mem_nameFaults member
      · exact consequent.isError_of_mem_nameFaults member
    · exact alternate.isError_of_mem_nameFaults member
  | .arrow _ _ body _, member => by
    obtain member | member := List.mem_append.mp member
    · exact NameScope.isError_of_mem_paramFaults member
    · exact body.isError_of_mem_nameFaults member
  | .call callee arguments _, member => by
    obtain member | member := List.mem_append.mp member
    · exact callee.isError_of_mem_nameFaults member
    · exact Expr.isError_of_mem_nameFaultsAll arguments member
  | .array elements _, member => Expr.isError_of_mem_nameFaultsAll elements member
  | .index object position _, member => by
    obtain member | member := List.mem_append.mp member
    · exact object.isError_of_mem_nameFaults member
    · exact position.isError_of_mem_nameFaults member

theorem Expr.isError_of_mem_nameFaultsAll {names : NameScope} {diagnostic : Diagnostic} :
    (exprs : List Expr) → diagnostic ∈ Expr.nameFaultsAll names exprs → diagnostic.isError
  | [], member => by cases member
  | head :: tail, member => by
    obtain member | member := List.mem_append.mp member
    · exact head.isError_of_mem_nameFaults member
    · exact Expr.isError_of_mem_nameFaultsAll tail member

theorem Body.isError_of_mem_nameFaults {names : NameScope} {diagnostic : Diagnostic} :
    (body : Body) → diagnostic ∈ body.nameFaults names → diagnostic.isError
  | .value value, member => value.isError_of_mem_nameFaults member
  | .block statements, member => Stmt.isError_of_mem_nameFaultsAll statements member

theorem Stmt.isError_of_mem_nameFaultsAll {names : NameScope} {diagnostic : Diagnostic} :
    (statements : List Stmt) → diagnostic ∈ Stmt.nameFaultsAll names statements →
      diagnostic.isError
  | [], member => by cases member
  | .const _ _ init _ :: rest, member => by
    obtain member | member := List.mem_append.mp member
    · obtain member | member := List.mem_append.mp member
      · exact init.isError_of_mem_nameFaults member
      · exact NameScope.isError_of_mem_declareFaults member
    · exact Stmt.isError_of_mem_nameFaultsAll rest member
  | .return (some argument) _ :: rest, member => by
    obtain member | member := List.mem_append.mp member
    · exact argument.isError_of_mem_nameFaults member
    · exact Stmt.isError_of_mem_nameFaultsAll rest member
  | .return none _ :: rest, member => Stmt.isError_of_mem_nameFaultsAll rest member
  | .expr value :: rest, member => by
    obtain member | member := List.mem_append.mp member
    · exact value.isError_of_mem_nameFaults member
    · exact Stmt.isError_of_mem_nameFaultsAll rest member

end

/-- A program without errors about names has no remarks about names at all. -/
theorem Program.nameFaults_eq_nil {program : Program}
    (clean : Diagnostic.anyError program.nameFaults = false) : program.nameFaults = [] := by
  refine List.eq_nil_iff_forall_not_mem.mpr fun diagnostic member => ?_
  have error := Stmt.isError_of_mem_nameFaultsAll _ member
  simpa [error] using List.any_eq_false.mp clean diagnostic member

namespace Scopes

/-- The names that are bound are the names that are declared, in the same order. -/
def Shows (scopes : Scopes) (names : NameScope) : Prop :=
  scopes.bindings.map Prod.fst = names.visible

variable {scopes : Scopes} {names : NameScope}

theorem Shows.find?_isSome (shows_ : scopes.Shows names) (name : String) :
    (scopes.find? name).isSome ↔ name ∈ names.visible := by
  rw [find?_eq_lookup, ← shows_, Option.isSome_iff_ne_none, ne_eq, List.lookup_eq_none_iff,
    List.mem_map]
  constructor
  · intro found
    by_contra absent
    exact found fun binding member => by
      simpa using fun same => absent ⟨binding, member, same.symm⟩
  · rintro ⟨binding, member, same⟩ absent
    simpa [same] using absent binding member

theorem Shows.push (shows_ : scopes.Shows names) : scopes.push.Shows names.enter :=
  shows_

theorem Shows.bind (shows_ : scopes.Shows names) (name : String) (ty : Ty) :
    (scopes.bind name ty).Shows (names.declare name) :=
  congrArg (name :: ·) shows_

theorem Shows.keep (shows_ : scopes.Shows names) (ty : Ty) : (scopes.keep ty).Shows names :=
  shows_

end Scopes

namespace Session

variable {session : Session} {names : NameScope}

/-! ### Names and parameters -/

/-- Looking up a name finds something exactly if the name is bound. -/
theorem lookup_misses (name : String) (session : Session) :
    Ensures (lookup name) session fun found after =>
      session.Misses [] after ∧ found.isSome = (session.scopes.find? name).isSome := by
  refine Ensures.get_bind ?_
  cases session.scopes.find? name with
  | none => exact Ensures.pure ⟨.refl session, rfl⟩
  | some stored =>
    show Ensures (if _ then _ else _) _ _
    split_ifs
    · exact Ensures.pure ⟨.refl session, rfl⟩
    · refine Ensures.bind (quiet_freshInstance stored session) fun copied after misses => ?_
      exact Ensures.pure ⟨misses, rfl⟩

theorem inferIdent_misses (shows_ : session.scopes.Shows names) (name : String)
    (span : Option Span) :
    Ensures (inferIdent name span) session fun _ after =>
      session.Misses (unresolvedUses (names.useFaults name span)) after := by
  rw [NameScope.unresolvedUses_useFaults]
  refine Ensures.bind (lookup_misses name session) fun found now ⟨misses, same⟩ => ?_
  have visible := shows_.find?_isSome name
  rw [← same] at visible
  cases found with
  | some ty =>
    rw [if_pos (visible.mp rfl)]
    exact Ensures.pure misses
  | none =>
    rw [if_neg (mt visible.mpr (by simp))]
    refine (Misses.bind_quiet (report_unbound_misses name span now) ?_).mono ?_
    · exact fun _ => quiet_onArena _
    · exact fun _ _ reported => misses.trans reported

theorem quiet_paramTy (declared : Option WrittenType) :
    Quiet (match declared with
      | some written => ofWritten written
      | none => fresh) := by
  cases declared with
  | none => exact quiet_onArena _
  | some written => exact quiet_ofWritten written

theorem inferParam_shows (shows_ : session.scopes.Shows names) (param : Param) :
    Ensures (inferParam param) session fun _ after =>
      after.scopes.outer = session.scopes.outer ∧
        after.scopes.Shows (names.declare param.name) ∧ session.Reports [] after := by
  obtain ⟨name, declared, info⟩ := param
  have quiet := quiet_paramTy declared session
  match declared, quiet with
  | none, quiet | some _, quiet =>
    refine Ensures.bind quiet fun ty now misses => ?_
    refine Ensures.modify_bind (Ensures.modify_bind (Ensures.pure ⟨?_, ?_, misses.reports⟩))
    · show now.scopes.outer = session.scopes.outer
      rw [misses.scopes]
    · rw [← misses.scopes] at shows_
      exact (shows_.bind name ty).keep ty

/-- The names in scope after parameters are theirs and those that were there before. -/
theorem inferParams_shows (params : List Param) {session : Session} {names : NameScope}
    (shows_ : session.scopes.Shows names) :
    Ensures (inferParams params) session fun _ after =>
      after.scopes.outer = session.scopes.outer ∧
        after.scopes.Shows (names.declareParams params) ∧ session.Reports [] after := by
  induction params generalizing session names with
  | nil => exact Ensures.pure ⟨rfl, shows_, .refl session⟩
  | cons param params inductionHypothesis =>
    refine Ensures.bind (inferParam_shows shows_ param) ?_
    intro _ now ⟨outer, shows_, reports⟩
    refine Ensures.bind (inductionHypothesis shows_) ?_
    intro _ after ⟨outer', shows_', reports'⟩
    exact Ensures.pure ⟨outer'.trans outer, shows_', reports.trans reports'⟩

end Session

/-! ### What both walks find, by kind of tree -/

/-- Inferring the expression calls those uses unbound that the check of names calls unresolved. -/
def Expr.Agrees (expr : Expr) : Prop :=
  ∀ ⦃session : Session⦄ ⦃names : NameScope⦄, session.scopes.Shows names →
    Ensures (Session.inferExpr expr) session fun _ after =>
      session.Misses (unresolvedUses (expr.nameFaults names)) after

/-- Inferring the arguments does so for all of them. -/
def Expr.AgreesAll (arguments : List Expr) : Prop :=
  ∀ ⦃session : Session⦄ ⦃names : NameScope⦄, session.scopes.Shows names →
    Ensures (Session.inferArguments arguments) session fun _ after =>
      session.Misses (unresolvedUses (Expr.nameFaultsAll names arguments)) after

/-- Inferring the elements does so for every type that they should share. -/
def Expr.AgreesEach (elements : List Expr) : Prop :=
  ∀ ⦃session : Session⦄ ⦃names : NameScope⦄ (element : Ty), session.scopes.Shows names →
    Ensures (Session.inferElements element elements) session fun _ after =>
      session.Misses (unresolvedUses (Expr.nameFaultsAll names elements)) after

/-- Inferring the body does so, and keeps the scopes around the function. -/
def Body.Agrees (body : Body) : Prop :=
  ∀ ⦃session : Session⦄ ⦃names : NameScope⦄, session.scopes.Shows names →
    Ensures (Session.inferBody body) session fun _ after =>
      after.scopes.outer = session.scopes.outer ∧
        session.Reports (unresolvedUses (body.nameFaults names)) after

/-- Inferring the block does so, each statement in the scope that those before it leave. -/
def Stmt.AgreesBlock (statements : List Stmt) : Prop :=
  ∀ ⦃session : Session⦄ ⦃names : NameScope⦄, session.scopes.Shows names →
    Ensures (Session.inferBlock statements) session fun _ after =>
      after.scopes.outer = session.scopes.outer ∧
        session.Reports (unresolvedUses (Stmt.nameFaultsAll names statements)) after

/-- Inferring the statement does so, and both walks see the same names after it. -/
def Stmt.Agrees (statement : Stmt) : Prop :=
  ∀ ⦃session : Session⦄ ⦃names : NameScope⦄, session.scopes.Shows names →
    Ensures (Session.inferStmt statement) session fun _ after =>
      after.scopes.outer = session.scopes.outer ∧
        after.scopes.Shows (names.after statement) ∧
        session.Reports (unresolvedUses (Stmt.nameFaultsAll names [statement])) after

namespace Session

/-! #### Expressions -/

theorem agrees_number (value : Binary64) (info : Info) : (Expr.number value info).Agrees :=
  fun session _ _ => Ensures.pure (.refl session)

theorem agrees_string (value : String) (info : Info) : (Expr.string value info).Agrees :=
  fun session _ _ => Ensures.pure (.refl session)

theorem agrees_bool (value : Bool) (info : Info) : (Expr.bool value info).Agrees :=
  fun session _ _ => Ensures.pure (.refl session)

theorem agrees_ident (name : String) (info : Info) : (Expr.ident name info).Agrees := by
  intro session names shows_
  exact Misses.bind_quiet (inferIdent_misses shows_ name info.span) fun _ => quiet_pure _

theorem agrees_binary (operator : Operator) (info : Info) {left right : Expr}
    (leftAgrees : left.Agrees) (rightAgrees : right.Agrees) :
    (Expr.binary operator left right info).Agrees := by
  intro session names shows_
  rw [Expr.nameFaults, unresolvedUses_append]
  refine Misses.bind (leftAgrees shows_) fun _ now same => ?_
  rw [← same] at shows_
  refine Misses.bind_quiet (rightAgrees shows_) fun _ => ?_
  exact (quiet_solveBinary operator _ _ info.span).bind fun _ => quiet_pure _

theorem agrees_conditional (info : Info) {test consequent alternate : Expr}
    (testAgrees : test.Agrees) (consequentAgrees : consequent.Agrees)
    (alternateAgrees : alternate.Agrees) :
    (Expr.conditional test consequent alternate info).Agrees := by
  intro session names shows_
  rw [Expr.nameFaults, unresolvedUses_append, unresolvedUses_append, List.append_assoc]
  refine Misses.bind (testAgrees shows_) fun _ now same => ?_
  rw [← same] at shows_
  refine Quiet.then (quiet_unify (by simp [Site.Worded]) _ _) fun _ now' same' => ?_
  rw [← same'] at shows_
  refine Misses.bind (consequentAgrees shows_) fun _ now'' same'' => ?_
  rw [← same''] at shows_
  refine Misses.bind_quiet (alternateAgrees shows_) fun _ => (quiet_onArena _).bind fun ty => ?_
  refine (quiet_unify (by simp [Site.Worded]) _ _).bind fun _ => ?_
  exact (quiet_unify (by simp [Site.Worded]) _ _).bind fun _ => quiet_pure _

theorem agrees_arrow (params : List Param) (result : Option WrittenType) (info : Info) {body : Body}
    (bodyAgrees : body.Agrees) : (Expr.arrow params result body info).Agrees := by
  intro session names shows_
  rw [Expr.nameFaults, unresolvedUses_append, NameScope.unresolvedUses_paramFaults]
  refine Ensures.modify_bind (Ensures.bind (inferParams_shows params shows_.push) ?_)
  intro _ now ⟨outer, shows_', reports⟩
  refine Ensures.bind (bodyAgrees shows_') fun _ now' ⟨outer', reports'⟩ => ?_
  refine Ensures.bind (quiet_meetDeclared _ result (by simp [Site.Worded]) now') ?_
  intro _ now'' met
  -- Closing the scope of the function restores the scopes in which the function stands.
  have popped : now''.scopes.pop = session.scopes := by
    rw [met.scopes]
    exact Scopes.pop_eq (outer'.trans outer)
  refine Ensures.modify_bind (Ensures.bind (quiet_onArena _ _) fun _ after head => ?_)
  refine Ensures.pure ⟨head.scopes.trans popped, ?_⟩
  exact reports.trans (reports'.then (met.reports.then head.reports))

theorem agrees_call (info : Info) {callee : Expr} {arguments : List Expr}
    (calleeAgrees : callee.Agrees) (argumentsAgree : Expr.AgreesAll arguments) :
    (Expr.call callee arguments info).Agrees := by
  intro session names shows_
  rw [Expr.nameFaults, unresolvedUses_append]
  refine Misses.bind (calleeAgrees shows_) fun _ now same => ?_
  rw [← same] at shows_
  refine Quiet.then (quiet_onArena _) fun _ now' same' => ?_
  rw [← same'] at shows_
  refine Misses.bind_quiet (argumentsAgree shows_) fun _ => ?_
  exact (quiet_solveCall _ _ info.span).bind fun _ => quiet_pure _

theorem agrees_array_nil (info : Info) : (Expr.array [] info).Agrees :=
  fun session _ _ => Quiet.bind (quiet_onArena _) (fun _ => quiet_pure _) session

theorem agrees_array_cons (info : Info) {head : Expr} {rest : List Expr}
    (headAgrees : head.Agrees) (restAgree : Expr.AgreesEach rest) :
    (Expr.array (head :: rest) info).Agrees := by
  intro session names shows_
  rw [Expr.nameFaults, Expr.nameFaultsAll, unresolvedUses_append]
  refine Misses.bind (headAgrees shows_) fun _ now same => ?_
  rw [← same] at shows_
  exact Misses.bind_quiet (restAgree _ shows_) fun _ => quiet_pure _

/-- Inference looks at the position first, and the check of names at the object. -/
theorem agrees_index (info : Info) {object position : Expr} (objectAgrees : object.Agrees)
    (positionAgrees : position.Agrees) : (Expr.index object position info).Agrees := by
  intro session names shows_
  rw [Expr.nameFaults, unresolvedUses_append]
  suffices swapped : Ensures (inferExpr (.index object position info)) session fun _ after =>
      session.Misses (unresolvedUses (position.nameFaults names) ++
        unresolvedUses (object.nameFaults names)) after from
    swapped.mono fun _ after misses =>
      ⟨misses.scopes, misses.reports.perm List.perm_append_comm⟩
  refine Misses.bind (positionAgrees shows_) fun _ now same => ?_
  rw [← same] at shows_
  refine Quiet.then (quiet_unify (by simp [Site.Worded]) _ _) fun _ now' same' => ?_
  rw [← same'] at shows_
  refine Misses.bind_quiet (objectAgrees shows_) fun _ => ?_
  exact (quiet_solveIndex _ (by simp [Site.Worded])).bind fun _ => quiet_pure _

theorem agreesAll_nil : Expr.AgreesAll [] :=
  fun session _ _ => Ensures.pure (.refl session)

theorem agreesAll_cons {head : Expr} {tail : List Expr} (headAgrees : head.Agrees)
    (tailAgree : Expr.AgreesAll tail) : Expr.AgreesAll (head :: tail) := by
  intro session names shows_
  rw [Expr.nameFaultsAll, unresolvedUses_append]
  refine Misses.bind (headAgrees shows_) fun _ now same => ?_
  rw [← same] at shows_
  exact Misses.bind_quiet (tailAgree shows_) fun _ => quiet_pure _

theorem agreesEach_nil : Expr.AgreesEach [] :=
  fun session _ _ _ => Ensures.pure (.refl session)

theorem agreesEach_cons {head : Expr} {tail : List Expr} (headAgrees : head.Agrees)
    (tailAgree : Expr.AgreesEach tail) : Expr.AgreesEach (head :: tail) := by
  intro session names element shows_
  rw [Expr.nameFaultsAll, unresolvedUses_append]
  refine Misses.bind (headAgrees shows_) fun _ now same => ?_
  rw [← same] at shows_
  refine Quiet.then (quiet_unify (by simp [Site.Worded]) _ _) fun _ now' same' => ?_
  rw [← same'] at shows_
  exact Misses.bind_quiet (tailAgree element shows_) fun _ => quiet_pure _

/-! #### Bodies and statements -/

theorem agrees_value {value : Expr} (valueAgrees : value.Agrees) : (Body.value value).Agrees := by
  intro session names shows_
  refine Ensures.bind (valueAgrees shows_) fun _ after misses => ?_
  exact Ensures.pure ⟨congrArg Scopes.outer misses.scopes, misses.reports⟩

theorem agrees_block {statements : List Stmt} (agree : Stmt.AgreesBlock statements) :
    (Body.block statements).Agrees :=
  fun _ _ shows_ => Ensures.bind (agree shows_) fun _ _ holds => Ensures.pure holds

theorem agreesBlock_nil : Stmt.AgreesBlock [] :=
  fun session _ _ => Ensures.pure ⟨rfl, .refl session⟩

theorem agreesBlock_cons {head : Stmt} {tail : List Stmt} (headAgrees : head.Agrees)
    (tailAgree : Stmt.AgreesBlock tail) : Stmt.AgreesBlock (head :: tail) := by
  intro session names shows_
  refine Ensures.bind (headAgrees shows_) ?_
  intro ⟨head', ty⟩ now ⟨outer, shows_', reports⟩
  show Ensures (if _ then _ else _) _ _
  split_ifs with last
  · rw [last.2]
    exact Ensures.pure ⟨outer, reports⟩
  · refine Ensures.bind (quiet_reportEarlyReturn head' now) fun _ now' early => ?_
    rw [← early.scopes] at shows_'
    refine Ensures.bind (tailAgree shows_') fun _ after ⟨outer', reports'⟩ => ?_
    refine Ensures.pure ⟨?_, ?_⟩
    · rw [outer', early.scopes, outer]
    · rw [Stmt.nameFaultsAll_cons, unresolvedUses_append]
      exact (reports.then early.reports).trans reports'

theorem agrees_const (name : String) (declared : Option WrittenType) (info : Info) {init : Expr}
    (initAgrees : init.Agrees) : (Stmt.const name declared init info).Agrees := by
  intro session names shows_
  refine Ensures.bind (initAgrees shows_) fun _ now misses => ?_
  refine Ensures.bind (quiet_meetDeclared _ declared (by simp [Site.Worded]) now) ?_
  intro ty now' met
  rw [← misses.scopes, ← met.scopes] at shows_
  refine Ensures.modify_bind (Ensures.pure ⟨?_, shows_.bind name ty, ?_⟩)
  · show now'.scopes.outer = session.scopes.outer
    rw [met.scopes, misses.scopes]
  · have uses : unresolvedUses (Stmt.nameFaultsAll names [.const name declared init info]) =
        unresolvedUses (init.nameFaults names) := by simp [Stmt.nameFaultsAll]
    rw [uses]
    exact misses.reports.then met.reports

theorem agrees_return_some (info : Info) {argument : Expr} (argumentAgrees : argument.Agrees) :
    (Stmt.return (some argument) info).Agrees := by
  intro session names shows_
  refine Ensures.bind (argumentAgrees shows_) fun _ after misses => ?_
  rw [← misses.scopes] at shows_
  refine Ensures.pure ⟨congrArg Scopes.outer misses.scopes, shows_, ?_⟩
  simpa [Stmt.nameFaultsAll] using misses.reports

theorem agrees_return_none (info : Info) : (Stmt.return none info).Agrees :=
  fun session _ shows_ => Ensures.pure ⟨rfl, shows_, .refl session⟩

theorem agrees_expr {value : Expr} (valueAgrees : value.Agrees) : (Stmt.expr value).Agrees := by
  intro session names shows_
  refine Ensures.bind (valueAgrees shows_) fun _ after misses => ?_
  rw [← misses.scopes] at shows_
  refine Ensures.pure ⟨congrArg Scopes.outer misses.scopes, shows_, ?_⟩
  simpa [Stmt.nameFaultsAll] using misses.reports

/-! ### Whole trees -/

mutual

/-- Both walks find the same uses in every expression. -/
theorem inferExpr_agrees : (expr : Expr) → expr.Agrees
  | .number value info => agrees_number value info
  | .string value info => agrees_string value info
  | .bool value info => agrees_bool value info
  | .ident name info => agrees_ident name info
  | .binary operator left right info =>
    agrees_binary operator info (inferExpr_agrees left) (inferExpr_agrees right)
  | .conditional test consequent alternate info =>
    agrees_conditional info (inferExpr_agrees test) (inferExpr_agrees consequent)
      (inferExpr_agrees alternate)
  | .arrow params result body info => agrees_arrow params result info (inferBody_agrees body)
  | .call callee arguments info =>
    agrees_call info (inferExpr_agrees callee) (inferArguments_agrees arguments)
  | .array [] info => agrees_array_nil info
  | .array (head :: rest) info =>
    agrees_array_cons info (inferExpr_agrees head) (inferElements_agrees rest)
  | .index object position info =>
    agrees_index info (inferExpr_agrees object) (inferExpr_agrees position)

theorem inferArguments_agrees : (arguments : List Expr) → Expr.AgreesAll arguments
  | [] => agreesAll_nil
  | head :: tail => agreesAll_cons (inferExpr_agrees head) (inferArguments_agrees tail)

theorem inferElements_agrees : (elements : List Expr) → Expr.AgreesEach elements
  | [] => agreesEach_nil
  | head :: tail => agreesEach_cons (inferExpr_agrees head) (inferElements_agrees tail)

theorem inferBody_agrees : (body : Body) → body.Agrees
  | .value value => agrees_value (inferExpr_agrees value)
  | .block statements => agrees_block (inferBlock_agrees statements)

theorem inferBlock_agrees : (statements : List Stmt) → Stmt.AgreesBlock statements
  | [] => agreesBlock_nil
  | head :: tail => agreesBlock_cons (inferStmt_agrees head) (inferBlock_agrees tail)

theorem inferStmt_agrees : (statement : Stmt) → statement.Agrees
  | .const name declared init info => agrees_const name declared info (inferExpr_agrees init)
  | .return (some argument) info => agrees_return_some info (inferExpr_agrees argument)
  | .return none info => agrees_return_none info
  | .expr value => agrees_expr (inferExpr_agrees value)

end

theorem inferStmts_reports (statements : List Stmt) {session : Session} {names : NameScope}
    (shows_ : session.scopes.Shows names) :
    Ensures (inferStmts statements) session fun _ after =>
      session.Reports (unresolvedUses (Stmt.nameFaultsAll names statements)) after := by
  induction statements generalizing session names with
  | nil => exact Ensures.pure (.refl session)
  | cons head tail inductionHypothesis =>
    refine Ensures.bind (inferStmt_agrees head shows_) fun _ now ⟨_, shows_', reports⟩ => ?_
    refine Ensures.bind (inductionHypothesis shows_') fun _ after reports' => ?_
    rw [Stmt.nameFaultsAll_cons, unresolvedUses_append]
    exact Ensures.pure (reports.trans reports')

theorem new_shows (lossy : Bool) : (new lossy).scopes.Shows {} :=
  rfl

/-- The check of names and inference complain about the same uses of names, and inference about none
if the names are right. -/
theorem unresolvedUses_perm_unboundUses (program : Program) (lossy : Bool) :
    (unresolvedUses program.nameFaults).Perm
        (unboundUses (infer program (new lossy)).1.2.diagnostics) ∧
      (Diagnostic.anyError program.nameFaults = false →
        unboundUses (infer program (new lossy)).1.2.diagnostics = []) := by
  obtain ⟨statements, tys, now, ran, _, _, _, handed⟩ := infer_ensures (new_ready lossy) program
  have reports := inferStmts_reports program.body (new_shows lossy)
  rw [Ensures, ran] at reports
  obtain ⟨added, appended, same⟩ := reports
  have reported : (infer program (new lossy)).1.2.diagnostics = added := handed.trans appended
  rw [reported]
  refine ⟨same.symm, fun clean => ?_⟩
  rw [← Program.nameFaults, Program.nameFaults_eq_nil clean] at same
  exact same.eq_nil

end Session

end ArrowCheck
