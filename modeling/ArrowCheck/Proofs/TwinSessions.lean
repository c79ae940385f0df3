/-
This file adds the scopes to two sessions that run side by side. Names that are
not hidden are bound to corresponding types in both, and so are the monomorphic
types, which come from above the gap. The type of a name may come from below the
gap, since a name is only used through a copy unless its type is monomorphic. So
the rules of inference work on both sides in the same way, as long as no hidden
name is used.
-/

import ArrowCheck.Proofs.Inference
import ArrowCheck.Proofs.Polymorphism
import ArrowCheck.Proofs.SideBySide

namespace ArrowCheck

open Arena

namespace Scopes

variable (scopes : Scopes)

theorem find?_push (name : String) : scopes.push.find? name = scopes.find? name := by
  rw [find?_eq_lookup, find?_eq_lookup]
  rfl

theorem find?_keep (ty : Ty) (name : String) : (scopes.keep ty).find? name = scopes.find? name := by
  rw [find?_eq_lookup, find?_eq_lookup]
  rfl

theorem find?_bind_self (name : String) (ty : Ty) : (scopes.bind name ty).find? name = some ty := by
  rw [find?_eq_lookup]
  exact List.lookup_cons_self

theorem find?_bind_other {name other : String} (different : other ≠ name) (ty : Ty) :
    (scopes.bind name ty).find? other = scopes.find? other := by
  rw [find?_eq_lookup, find?_eq_lookup]
  show List.lookup other ((name, ty) :: scopes.bindings) = _
  rw [List.lookup_cons, beq_eq_false_iff_ne.mpr different]

end Scopes

namespace Session

variable {gap : Gap} {hidden : Set String} {short long short' long' : Session}

/-! ### Scopes on both sides -/

/-- Two sessions are in step, and their scopes show corresponding types for all names that are not
hidden. -/
structure Twins (gap : Gap) (hidden : Set String) (short long : Session) : Prop
    extends Abreast gap short long where
  covers : ∀ ty ∈ short.scopes.tys, short.arena.Covers ty
  covers' : ∀ ty ∈ long.scopes.tys, long.arena.Covers ty
  monomorphic : long.scopes.current.monomorphic =
    short.scopes.current.monomorphic.map (Ty.shift gap)
  young : ∀ ty ∈ short.scopes.current.monomorphic, short.arena.Young gap ty
  visible : ∀ name ∉ hidden, long.scopes.find? name = (short.scopes.find? name).map (Ty.shift gap)

namespace Twins

theorem ready (twins : Twins gap hidden short long) : short.Ready ∅ :=
  ready_empty twins.arenas.wellFormed twins.covers

theorem ready' (twins : Twins gap hidden short long) : long.Ready ∅ :=
  ready_empty twins.arenas.wellFormed' twins.covers'

/-- Steps within the same scopes keep what the scopes show. -/
theorem steps (twins : Twins gap hidden short long) (steps : Steps gap short long short' long') :
    Twins gap hidden short' long' := by
  have size_le : long.arena.size ≤ long'.arena.size := by
    rw [twins.arenas.size, steps.abreast.arenas.size]
    exact Nat.add_le_add_right steps.size_le _
  refine ⟨steps.abreast, ?_, ?_, ?_, ?_, ?_⟩ <;>
    simp only [steps.scopes, steps.scopes']
  · exact fun ty member id occurs => (twins.covers ty member id occurs).trans_le steps.size_le
  · exact fun ty member id occurs => (twins.covers' ty member id occurs).trans_le size_le
  · exact twins.monomorphic
  · exact fun ty member => steps.keeps (twins.young ty member)
  · exact twins.visible

theorem push (twins : Twins gap hidden short long) :
    Twins gap hidden { short with scopes := short.scopes.push }
      { long with scopes := long.scopes.push } := by
  refine ⟨twins.toAbreast.rescope _ _, Scopes.forall_mem_push twins.covers,
    Scopes.forall_mem_push twins.covers', twins.monomorphic, twins.young, fun name shown => ?_⟩
  rw [Scopes.find?_push, Scopes.find?_push]
  exact twins.visible name shown

/-- A name that is bound on both sides is not hidden any more. -/
theorem bind (twins : Twins gap hidden short long) (name : String) {ty : Ty}
    (young : short.arena.Young gap ty) :
    Twins gap (hidden \ {name}) { short with scopes := short.scopes.bind name ty }
      { long with scopes := long.scopes.bind name (ty.shift gap) } := by
  refine ⟨twins.toAbreast.rescope _ _, Scopes.forall_mem_bind twins.covers young.covers,
    Scopes.forall_mem_bind twins.covers' (twins.arenas.covers young.covers), twins.monomorphic,
    twins.young, fun other shown => ?_⟩
  by_cases same : other = name
  · rw [same, Scopes.find?_bind_self, Scopes.find?_bind_self]
    rfl
  · rw [Scopes.find?_bind_other _ same, Scopes.find?_bind_other _ same]
    exact twins.visible other fun member => shown ⟨member, same⟩

theorem keep (twins : Twins gap hidden short long) {ty : Ty} (young : short.arena.Young gap ty) :
    Twins gap hidden { short with scopes := short.scopes.keep ty }
      { long with scopes := long.scopes.keep (ty.shift gap) } := by
  refine ⟨twins.toAbreast.rescope _ _, Scopes.forall_mem_keep twins.covers young.covers,
    Scopes.forall_mem_keep twins.covers' (twins.arenas.covers young.covers), ?_, ?_,
    fun name shown => ?_⟩
  · show _ ++ [_] = List.map _ (_ ++ [_])
    rw [List.map_append, twins.monomorphic]
    rfl
  · exact List.forall_mem_append.mpr ⟨twins.young, List.forall_mem_singleton.mpr young⟩
  · rw [Scopes.find?_keep, Scopes.find?_keep]
    exact twins.visible name shown

end Twins

/-! ### Names -/

theorem resolveAll_paired (tys : List Ty) (abreast : Abreast gap short long)
    (young : ∀ ty ∈ tys, short.arena.Young gap ty) :
    Paired (resolveAll tys) (resolveAll (tys.map (Ty.shift gap))) short long
      fun values values' short' long' => Steps gap short long short' long' ∧
        values' = values.map (Ty.shift gap) ∧ ∀ value ∈ values, short'.arena.Young gap value := by
  induction tys generalizing short long with
  | nil => exact Paired.pure ⟨.refl abreast, rfl, List.forall_mem_nil _⟩
  | cons head tail inductionHypothesis =>
    obtain ⟨young, youngTail⟩ := List.forall_mem_cons.mp young
    refine Paired.bind (resolve_paired abreast young.covers) ?_
    rintro value value' _ _ ⟨steps, -, valueIs, same⟩
    refine Paired.bind (inductionHypothesis steps.abreast
      fun ty member => steps.keeps (youngTail ty member)) ?_
    rintro values values' _ _ ⟨steps', same', youngs⟩
    refine Paired.pure ⟨steps.trans steps', ?_, List.forall_mem_cons.mpr ⟨?_, youngs⟩⟩
    · rw [same, same', List.map_cons]
    · rw [valueIs]
      exact (steps.trans steps').keeps (abreast.arenas.young_solved young)

theorem monomorphicVars_paired (twins : Twins gap hidden short long) :
    Paired monomorphicVars monomorphicVars short long fun kept kept' short' long' =>
      Steps gap short long short' long' ∧ kept' = kept.map gap.move ∧
        ∀ id ∈ kept, gap.start ≤ id := by
  refine Paired.get_bind ?_
  rw [twins.monomorphic]
  refine Paired.bind (resolveAll_paired _ twins.toAbreast twins.young) ?_
  rintro values values' _ _ ⟨steps, same, young⟩
  refine Paired.pure ⟨steps, ?_, ?_⟩
  · rw [same, List.flatMap_map, List.map_flatMap]
    exact List.flatMap_congr fun value _ => Ty.vars_shift gap value
  · exact List.forall_mem_flatMap.mpr fun value member id occurs => (young value member id occurs).1

theorem freshInstance_paired (twins : Twins gap hidden short long) {stored : Ty}
    (covers : short.arena.Covers stored) :
    Paired (freshInstance stored) (freshInstance (stored.shift gap)) short long
      (Gives gap short long) := by
  refine Paired.bind (monomorphicVars_paired twins) ?_
  intro kept _ now now' ⟨steps, same, above⟩
  subst same
  obtain ⟨arenas, size_le, young, copied⟩ := steps.abreast.arenas.copy above
    fun id occurs => (covers id occurs).trans_le steps.size_le
  exact ⟨steps.trans (steps.abreast.steps arenas size_le), copied, young⟩

theorem lookup_paired (twins : Twins gap hidden short long) {name : String}
    (shown : name ∉ hidden) :
    Paired (lookup name) (lookup name) short long fun found found' short' long' =>
      Steps gap short long short' long' ∧ found' = found.map (Ty.shift gap) ∧
        ∀ ty, found = some ty → short'.arena.Young gap ty := by
  refine Paired.get_bind ?_
  rw [twins.visible name shown, twins.monomorphic]
  cases found : short.scopes.find? name with
  | none => exact Paired.pure ⟨.refl twins.toAbreast, rfl, nofun⟩
  | some stored =>
    have covers := twins.covers stored (Scopes.mem_tys_of_find? found)
    show Paired (if _ then _ else _) (if _ then _ else _) _ _ _
    simp only [List.mem_map_of_injective (Ty.shift_injective gap)]
    split_ifs with member
    · refine Paired.pure ⟨.refl twins.toAbreast, rfl, fun ty same => ?_⟩
      cases same
      exact twins.young stored member
    · refine Paired.bind (freshInstance_paired twins covers) fun ty ty' _ _ gives => ?_
      refine Paired.pure ⟨gives.toSteps, congrArg some gives.same, fun other same => ?_⟩
      cases same
      exact gives.young

theorem inferIdent_paired (twins : Twins gap hidden short long) {name : String}
    (shown : name ∉ hidden) (span : Option Span) :
    Paired (inferIdent name span) (inferIdent name span) short long (Gives gap short long) := by
  refine Paired.bind (lookup_paired twins shown) fun found found' _ _ ⟨steps, same, young⟩ => ?_
  subst same
  cases found with
  | some ty => exact Paired.pure ⟨steps, rfl, young ty rfl⟩
  | none =>
    exact steps.gives (report_fresh_paired steps.abreast rfl span)

/-! ### Operators, calls and indices -/

theorem requireNumbers_paired (abreast : Abreast gap short long) (span : Option Span)
    {left right : Ty} (young : short.arena.Young gap left)
    (young' : short.arena.Young gap right) :
    Paired (requireNumbers left right span)
      (requireNumbers (left.shift gap) (right.shift gap) span) short long fun _ _ short' long' =>
        Steps gap short long short' long' := by
  refine Paired.bind (unify_paired abreast _ young (young_prim _)) fun _ _ _ _ steps => ?_
  refine Paired.bind (unify_paired steps.abreast _ (steps.keeps young') (young_prim _)) ?_
  exact fun _ _ _ _ steps' => Paired.pure (steps.trans steps')

theorem numeric_paired (abreast : Abreast gap short long) (span : Option Span) {left right : Ty}
    (young : short.arena.Young gap left) (young' : short.arena.Young gap right)
    (result : Primitive) :
    Paired (do requireNumbers left right span; pure (.prim result))
      (do requireNumbers (left.shift gap) (right.shift gap) span; pure (.prim result)) short long
      (Gives gap short long) := by
  refine Paired.bind (requireNumbers_paired abreast span young young') fun _ _ _ _ steps => ?_
  exact steps.gives (prim_paired steps.abreast result)

theorem solveAdd_paired (abreast : Abreast gap short long) (span : Option Span) {left right : Ty}
    (young : short.arena.Young gap left) (young' : short.arena.Young gap right) :
    Paired (solveAdd left right span) (solveAdd (left.shift gap) (right.shift gap) span) short long
      (Gives gap short long) := by
  have string (ty : Ty) : decide (ty.shift gap = .string) = decide (ty = .string) :=
    decide_eq_decide.mpr ((Ty.shift_injective gap).eq_iff' rfl)
  refine Paired.bind (compress_paired abreast young) fun head _ _ _ ⟨gives, _⟩ => ?_
  refine Paired.bind (compress_paired gives.abreast (gives.keeps young')) ?_
  intro head' _ _ _ ⟨gives', _⟩
  have steps := gives.toSteps.trans gives'.toSteps
  have mixed : Paired (do report .concatenation span; pure .string)
      (do report .concatenation span; pure .string) _ _ (Gives gap short long) :=
    Paired.bind (report_paired steps.abreast rfl span) fun _ _ _ _ steps' =>
      (steps.trans steps').gives (prim_paired steps'.abreast _)
  rw [gives.same, gives'.same, string, string]
  cases decide (head = .string) <;> cases decide (head' = .string)
  · exact steps.gives
      (numeric_paired steps.abreast span (steps.keeps young) (steps.keeps young') _)
  · exact mixed
  · exact mixed
  · exact steps.gives (prim_paired steps.abreast _)

theorem solveBinary_paired (abreast : Abreast gap short long) (operator : Operator)
    (span : Option Span) {left right : Ty} (young : short.arena.Young gap left)
    (young' : short.arena.Young gap right) :
    Paired (solveBinary operator left right span)
      (solveBinary operator (left.shift gap) (right.shift gap) span) short long
      (Gives gap short long) := by
  cases operator with
  | add => exact solveAdd_paired abreast span young young'
  | sub | mul | div | greater | less | greaterEqual | lessEqual =>
    exact numeric_paired abreast span young young' _
  | equal | unequal =>
    refine Paired.bind (unify_paired abreast _ young young') fun _ _ _ _ steps => ?_
    exact steps.gives (prim_paired steps.abreast _)
  | mod | strictEqual | strictUnequal | and | or => exact report_fresh_paired abreast rfl span

theorem meetDeclared_paired (abreast : Abreast gap short long) {inferred : Ty}
    (young : short.arena.Young gap inferred) (declared : Option WrittenType)
    (site : WrittenType → Site) :
    Paired (meetDeclared inferred declared site) (meetDeclared (inferred.shift gap) declared site)
      short long (Gives gap short long) := by
  cases declared with
  | none => exact Paired.pure ⟨.refl abreast, rfl, young⟩
  | some written =>
    refine Paired.bind (ofWritten_paired written abreast) fun ty ty' _ _ gives => ?_
    rw [gives.same]
    refine Paired.bind (unify_paired gives.abreast _ (gives.keeps young) gives.young) ?_
    intro _ _ _ _ steps
    exact Paired.pure ⟨gives.toSteps.trans steps, rfl, steps.keeps gives.young⟩

/-- Arguments with their types replaced by the corresponding ones. -/
def shiftArguments (gap : Gap) (arguments : List (Option Span × Ty)) : List (Option Span × Ty) :=
  arguments.map (Prod.map id (Ty.shift gap))

theorem unifyArguments_paired (span : Option Span) (position : Nat)
    (abreast : Abreast gap short long) {arguments : List (Option Span × Ty)} {params : List Ty}
    (young : ∀ argument ∈ arguments, short.arena.Young gap argument.2)
    (young' : ∀ param ∈ params, short.arena.Young gap param) :
    Paired (unifyArguments span position arguments params)
      (unifyArguments span position (shiftArguments gap arguments) (params.map (Ty.shift gap)))
      short long fun _ _ short' long' => Steps gap short long short' long' := by
  induction arguments generalizing short long position params with
  | nil => exact Paired.pure (.refl abreast)
  | cons argument arguments inductionHypothesis =>
    cases params with
    | nil => exact Paired.pure (.refl abreast)
    | cons param params =>
      obtain ⟨young, youngRest⟩ := List.forall_mem_cons.mp young
      obtain ⟨young', youngRest'⟩ := List.forall_mem_cons.mp young'
      refine Paired.bind (unify_paired abreast _ young young') fun _ _ _ _ steps => ?_
      exact (inductionHypothesis (position + 1) steps.abreast
        (fun other member => steps.keeps (youngRest other member))
        (fun other member => steps.keeps (youngRest' other member))).mono
        fun _ _ _ _ steps' => steps.trans steps'

theorem solveCall_paired (abreast : Abreast gap short long) {callee : Ty}
    {arguments : List (Option Span × Ty)} (young : short.arena.Young gap callee)
    (young' : ∀ argument ∈ arguments, short.arena.Young gap argument.2) (span : Option Span) :
    Paired (solveCall callee arguments span)
      (solveCall (callee.shift gap) (shiftArguments gap arguments) span) short long
      (Gives gap short long) := by
  have refused : Paired
      (do
        let shown ← resolve callee
        report (.notFunction shown) span
        fresh)
      (do
        let shown ← resolve (callee.shift gap)
        report (.notFunction shown) span
        fresh) short long (Gives gap short long) := by
    refine Paired.bind (resolve_paired abreast young.covers) fun _ _ _ _ ⟨steps, _⟩ => ?_
    exact steps.gives (report_fresh_paired steps.abreast (by rfl) span)
  cases callee with
  | var id =>
    refine Paired.bind (fresh_paired abreast) fun result _ _ _ gives => ?_
    have built : Ty.fn ((shiftArguments gap arguments).map Prod.snd) (result.shift gap) =
        (Ty.fn (arguments.map Prod.snd) result).shift gap := by
      rw [Ty.shift_fn, shiftArguments, List.map_map, List.map_map]
      rfl
    rw [gives.same, built]
    refine Paired.bind (unify_paired gives.abreast _ (gives.keeps young)
      (young_fn.mpr ⟨List.forall_mem_map.mpr fun argument member =>
        gives.keeps (young' argument member), gives.young⟩)) fun _ _ _ _ steps => ?_
    exact Paired.pure ⟨gives.toSteps.trans steps, rfl, steps.keeps gives.young⟩
  | fn params result =>
    obtain ⟨youngParams, youngResult⟩ := young_fn.mp young
    rw [Ty.shift_fn, solveCall, solveCall, shiftArguments, List.length_map, List.length_map,
      ← shiftArguments]
    split_ifs
    · refine Paired.bind (unifyArguments_paired span 1 abreast young' youngParams) ?_
      intro _ _ _ _ steps
      exact Paired.pure ⟨steps, rfl, steps.keeps youngResult⟩
    · refine Paired.bind (report_paired abreast rfl span) fun _ _ _ _ steps => ?_
      exact Paired.pure ⟨steps, rfl, steps.keeps youngResult⟩
  | prim _ | array _ => exact refused

theorem unifyElement_paired (abreast : Abreast gap short long) {object : Ty}
    (young : short.arena.Young gap object) (site : Site) :
    Paired
      (do
        let element ← fresh
        let _ ← unify site object (.array element)
        pure element)
      (do
        let element ← fresh
        let _ ← unify site (object.shift gap) (.array element)
        pure element) short long (Gives gap short long) := by
  refine Paired.bind (fresh_paired abreast) fun element _ _ _ gives => ?_
  rw [gives.same, ← Ty.shift_array]
  refine Paired.bind (unify_paired gives.abreast _ (gives.keeps young)
    (young_array.mpr gives.young)) fun _ _ _ _ steps => ?_
  exact Paired.pure ⟨gives.toSteps.trans steps, rfl, steps.keeps gives.young⟩

theorem solveIndex_paired (abreast : Abreast gap short long) {object : Ty}
    (young : short.arena.Young gap object) (site : Site) :
    Paired (solveIndex object site) (solveIndex (object.shift gap) site) short long
      (Gives gap short long) := by
  refine Paired.bind (compress_paired abreast young) fun head _ _ _ ⟨gives, _⟩ => ?_
  rw [gives.same]
  have unified := gives.toSteps.gives (unifyElement_paired gives.abreast gives.young site)
  cases head with
  | array element => exact Paired.pure ⟨gives.toSteps, rfl, young_array.mp gives.young⟩
  | var _ | prim _ => exact unified
  | fn params result =>
    simp only [Ty.shift_fn] at unified ⊢
    exact unified

theorem reportEarlyReturn_paired (abreast : Abreast gap short long) {statement statement' : Stmt}
    (returns : statement'.isReturn = statement.isReturn) (span : statement'.span = statement.span) :
    Paired (reportEarlyReturn statement) (reportEarlyReturn statement') short long
      fun _ _ short' long' => Steps gap short long short' long' := by
  rw [reportEarlyReturn, reportEarlyReturn, returns, span]
  split_ifs
  · exact report_paired abreast rfl _
  · exact Paired.pure (.refl abreast)

end Session

end ArrowCheck
