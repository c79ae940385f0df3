/-
This file describes the operations of a session while types are given for its
variables in advance. If the equations that an operation has to solve hold for
the given types, then the operation reports nothing, and the given types go on to
solve the links of the session. Types for new variables are chosen as they are
needed. Variables that are left alone have no fixed type: they may be given a
new one for each use of a name.
-/

import ArrowCheck.Proofs.Inference
import ArrowCheck.Proofs.Shifts

namespace ArrowCheck

open Arena

/-- Values that solve an arena still do so when meanings are kept, whatever the values of new
variables are. -/
theorem Arena.Preserves.solves_of_agrees {before after : Arena} (preserves : before.Preserves after)
    (wellFormed : before.WellFormed) {values values' : VarId → Ty} (solves : Solves values before)
    (agrees : ∀ id < before.size, values' id = values id) : Solves values' after := by
  refine solves_of_factors preserves.wellFormed fun id => ?_
  rw [preserves.meaning]
  by_cases known : id < before.size
  · rw [agrees id known, solves.eq_subst_meaning wellFormed id]
    refine Ty.subst_congr fun other occurs => (agrees other ?_).symm
    exact lt_size_of_mem_meaning wellFormed known occurs
  · rw [meaning_of_free (target_eq_none_of_size_le (Nat.le_of_not_lt known)), Ty.subst_var]

namespace Session

/-- Types for the variables of a session under which every link holds. -/
structure Valued (settled : Set VarId) (values : VarId → Ty) (session : Session) : Prop where
  ready : session.Ready settled
  solves : Solves values session.arena

/-- Nothing was reported, and the types that were given go on to solve the links. -/
structure Realises (before : Session) (values : VarId → Ty) (after : Session)
    (values' : VarId → Ty) : Prop where
  silent : after.diagnostics = before.diagnostics
  size_le : before.arena.size ≤ after.arena.size
  agrees : ∀ id < before.arena.size, values' id = values id
  solves : Solves values' after.arena

/-- What an operation does to a session when the given types serve it. -/
structure Follows (settled : Set VarId) (before : Session) (values : VarId → Ty) (after : Session)
    (values' : VarId → Ty) : Prop
    extends Advances settled before after, Realises before values after values'

/-- What an operation does to a session when the given types serve it, and when it gives a type that
has a value. -/
structure Attains (settled : Set VarId) (before : Session) (values : VarId → Ty) (value ty : Ty)
    (after : Session) (values' : VarId → Ty) : Prop
    extends Follows settled before values after values' where
  apart : after.arena.Apart settled ty
  value_eq : ty.subst values' = value

variable {settled : Set VarId} {values values' values'' : VarId → Ty}
  {before middle after session : Session}

/-! ### Steps -/

theorem Realises.trans (first : before.Realises values middle values')
    (second : middle.Realises values' after values'') : before.Realises values after values'' where
  silent := second.silent.trans first.silent
  size_le := first.size_le.trans second.size_le
  agrees id known :=
    (second.agrees id (known.trans_le first.size_le)).trans (first.agrees id known)
  solves := second.solves

/-- Types that were there keep their values. -/
theorem Realises.subst_eq (realises : before.Realises values after values') {ty : Ty}
    (covers : before.arena.Covers ty) : ty.subst values' = ty.subst values :=
  Ty.subst_congr fun id occurs => realises.agrees id (covers id occurs)

theorem Realises.map_subst_eq (realises : before.Realises values after values') {tys : List Ty}
    (covers : before.arena.CoversEach tys) :
    tys.map (Ty.subst values') = tys.map (Ty.subst values) :=
  List.map_congr_left fun ty member => realises.subst_eq (covers ty member)

/-- What is bound does not matter. -/
theorem Realises.rescope (realises : before.Realises values after values')
    (outer inner : Scopes) :
    Realises { before with scopes := outer } values { after with scopes := inner } values' :=
  ⟨realises.silent, realises.size_le, realises.agrees, realises.solves⟩

namespace Follows

theorem valued (follows : before.Follows settled values after values')
    (valued : before.Valued settled values) : after.Valued settled values' :=
  ⟨follows.ready valued.ready, follows.solves⟩

theorem refl (valued : session.Valued settled values) :
    session.Follows settled values session values :=
  ⟨.refl valued.ready, rfl, le_refl _, fun _ _ => rfl, valued.solves⟩

theorem trans (first : before.Follows settled values middle values')
    (second : middle.Follows settled values' after values'') :
    before.Follows settled values after values'' :=
  ⟨first.toAdvances.trans second.toAdvances, first.toRealises.trans second.toRealises⟩

/-- Changing no meaning leaves the types that are given. -/
theorem of_preserves (valued : session.Valued settled values) {arena : Arena}
    (preserves : session.arena.Preserves arena)
    (agrees : ∀ id < session.arena.size, values' id = values id) :
    session.Follows settled values { session with arena := arena } values' :=
  ⟨.of_preserves valued.ready preserves, rfl, preserves.size_le, agrees,
    preserves.solves_of_agrees valued.ready.wellFormed valued.solves agrees⟩

theorem attains {value ty : Ty} (first : before.Follows settled values middle values')
    (second : middle.Attains settled values' value ty after values'') :
    before.Attains settled values value ty after values'' :=
  ⟨first.trans second.toFollows, second.apart, second.value_eq⟩

end Follows

/-- A type that was given goes on to have its value. -/
theorem Attains.follow {value ty : Ty}
    (first : before.Attains settled values value ty middle values')
    (second : middle.Follows settled values' after values'') :
    before.Attains settled values value ty after values'' :=
  ⟨first.toFollows.trans second, second.keeps first.apart,
    (second.subst_eq first.apart.covers).trans first.value_eq⟩

theorem attains_prim (valued : session.Valued settled values) (primitive : Primitive) :
    session.Attains settled values (.prim primitive) (.prim primitive) session values :=
  ⟨.refl valued, apart_prim primitive, Ty.subst_prim _ _⟩

/-! ### Operations on the arena -/

/-- A new variable can be given any value. -/
theorem fresh_attains (valued : session.Valued settled values) (value : Ty) :
    Ensures fresh session fun ty after =>
      ∃ values', session.Attains settled values value ty after values' := by
  refine ((fresh_yields valued.ready).and
    (onArena_ensures (fresh_ensures session.arena))).mono ?_
  rintro _ _ ⟨yields, _, ⟨rfl, rfl⟩, rfl⟩
  refine ⟨Function.update values session.arena.size value, ?_, yields.apart, ?_⟩
  · refine .of_preserves valued (preserves_grown valued.ready.wellFormed) fun id known => ?_
    exact Function.update_of_ne (Nat.ne_of_lt known) _ _
  · rw [Ty.subst_var, Function.update_self]

/-- Types of equal values can be unified. -/
theorem unify_follows (valued : session.Valued settled values) (site : Site) {first second : Ty}
    (apart : session.arena.Apart settled first) (apart' : session.arena.Apart settled second)
    (same : first.subst values = second.subst values) :
    Ensures (unify site first second) session fun _ after =>
      session.Follows settled values after values := by
  refine ((unify_advances valued.ready site apart apart').and
    (unify_unified valued.ready.wellFormed site apart.covers apart'.covers)).mono ?_
  rintro verdict after ⟨⟨advances, _⟩, unified⟩
  have equates := equates_singleton.mpr same
  have succeeded : verdict = true := by
    by_contra failed
    exact unified.refutes (Bool.eq_false_of_not_eq_true failed) values valued.solves equates
  obtain ⟨added, appended, silent⟩ := unified.reports
  refine ⟨advances, ?_, advances.extends_.size_le, fun _ _ => rfl,
    unified.general succeeded values valued.solves equates⟩
  rw [appended, silent.mp succeeded, List.append_nil]

theorem compress_attains (valued : session.Valued settled values) {ty : Ty}
    (apart : session.arena.Apart settled ty) :
    Ensures (compress ty) session fun head after =>
      session.Attains settled values (ty.subst values) head after values := by
  have wellFormed := valued.ready.wellFormed
  refine ((compress_yields valued.ready apart).and
    (onArena_ensures (compress_ensures wellFormed apart.covers))).mono ?_
  rintro head _ ⟨⟨yields, same⟩, arena, ⟨shortens, _⟩, rfl⟩
  refine ⟨.of_preserves valued shortens.toPreserves fun _ _ => rfl, yields.apart, ?_⟩
  rw [← valued.solves.subst_solved wellFormed head, same, valued.solves.subst_solved wellFormed]

/-! ### Written types -/

mutual

/-- What a written type stands for can be given every value that it may stand for. -/
theorem ofWritten_attains (written : WrittenType) {session : Session} {values : VarId → Ty}
    (valued : session.Valued settled values) {value : Ty} (denotes : written.Denotes value) :
    Ensures (ofWritten written) session fun ty after =>
      ∃ values', session.Attains settled values value ty after values' := by
  match written, denotes with
  | .named name span, .primitive member =>
    have known (primitive : Primitive) :
        Ensures (pure (.prim primitive)) session fun ty after =>
          ∃ values', session.Attains settled values (.prim primitive) ty after values' :=
      Ensures.pure ⟨values, attains_prim valued primitive⟩
    simp only [WrittenType.primitives, List.mem_cons, Prod.mk.injEq, List.not_mem_nil,
      or_false] at member
    rcases member with ⟨rfl, rfl⟩ | ⟨rfl, rfl⟩ | ⟨rfl, rfl⟩ | ⟨rfl, rfl⟩ <;> exact known _
  | .named name span, .other _ unknown =>
    have differs (other : String) (primitive : Primitive)
        (member : (other, primitive) ∈ WrittenType.primitives) : name ≠ other := by
      rintro rfl
      exact unknown primitive member
    rw [ofWritten, if_neg (differs "number" .number (by decide)),
      if_neg (differs "string" .string (by decide)), if_neg (differs "boolean" .bool (by decide)),
      if_neg (differs "void" .void (by decide))]
    exact fresh_attains valued value
  | .array element span, .array inner =>
    rw [ofWritten]
    refine Ensures.bind (ofWritten_attains element valued inner) ?_
    rintro ty after ⟨values', attains⟩
    refine Ensures.pure ⟨values', attains.toFollows, apart_array.mpr attains.apart, ?_⟩
    rw [Ty.subst_array, attains.value_eq]
  | .function params result span, .function inner inner' =>
    rw [ofWritten]
    refine Ensures.bind (ofWrittenAll_follows params valued inner) ?_
    rintro paramTys middle ⟨values', follows, apart, valuesAre⟩
    refine Ensures.bind (ofWritten_attains result (follows.valued valued) inner') ?_
    rintro resultTy after ⟨values'', attains⟩
    refine Ensures.pure ⟨values'', follows.trans attains.toFollows,
      apart_fn.mpr ⟨fun ty member => attains.keeps (apart ty member), attains.apart⟩, ?_⟩
    rw [Ty.subst_fn, attains.value_eq, ← valuesAre,
      attains.map_subst_eq fun ty member => (apart ty member).covers]

theorem ofWrittenAll_follows (written : List WrittenType) {session : Session}
    {values : VarId → Ty} (valued : session.Valued settled values) {targets : List Ty}
    (denote : WrittenType.DenoteAll written targets) :
    Ensures (ofWrittenAll written) session fun tys after =>
      ∃ values', session.Follows settled values after values' ∧
        (∀ ty ∈ tys, after.arena.Apart settled ty) ∧ tys.map (Ty.subst values') = targets := by
  match written, denote with
  | [], .nil => exact Ensures.pure ⟨values, .refl valued, List.forall_mem_nil _, rfl⟩
  | head :: tail, .cons inner rest =>
    rw [ofWrittenAll]
    refine Ensures.bind (ofWritten_attains head valued inner) ?_
    rintro ty middle ⟨values', attains⟩
    refine Ensures.bind (ofWrittenAll_follows tail (attains.valued valued) rest) ?_
    rintro tys after ⟨values'', follows, apart, valuesAre⟩
    have attains' := attains.follow follows
    refine Ensures.pure ⟨values'', attains'.toFollows,
      List.forall_mem_cons.mpr ⟨attains'.apart, apart⟩, ?_⟩
    rw [List.map_cons, attains'.value_eq, valuesAre]

end

/-! ### Names -/

open Classical in
/-- Values of which those of the variables that are left alone are replaced. -/
noncomputable def patched (settled : Set VarId) (others values : VarId → Ty) (id : VarId) : Ty :=
  if id ∈ settled then others id else values id

theorem patched_of_mem {others : VarId → Ty} {id : VarId} (member : id ∈ settled) :
    patched settled others values id = others id :=
  if_pos member

theorem patched_of_notMem {others : VarId → Ty} {id : VarId} (absent : id ∉ settled) :
    patched settled others values id = values id :=
  if_neg absent

/-- A type has a value for some values of the variables that are left alone. -/
def Grants (settled : Set VarId) (arena : Arena) (values : VarId → Ty) (ty value : Ty) : Prop :=
  ∃ others, value = (arena.solved ty).subst (patched settled others values)

theorem notMem_of_monomorphic (ready : session.Ready settled) {id : VarId}
    (monomorphic : session.Monomorphic id) : id ∉ settled := by
  obtain ⟨kept, member, occurs⟩ := monomorphic
  exact ready.avoids kept member id occurs

/-- An instance of a type can be given every value that the type grants. -/
theorem freshInstance_attains (valued : session.Valued settled values) {stored value : Ty}
    (covers : session.arena.Covers stored)
    (grants : Grants settled session.arena values stored value) :
    Ensures (freshInstance stored) session fun ty after =>
      ∃ values', session.Attains settled values value ty after values' := by
  have ready := valued.ready
  obtain ⟨others, rfl⟩ := grants
  have copied : Ensures (freshInstance stored) session fun ty after =>
      ∃ values', session.Follows settled values after values' ∧
        ty.subst values' =
          (session.arena.solved stored).subst (patched settled others values) := by
    refine Ensures.bind (monomorphicVars_ensures ready) ?_
    rintro kept _ ⟨middle, shortens, rfl, keptIff⟩
    have covers' := shortens.covers covers
    refine (onArena_ensures ((copy_ensures shortens.wellFormed kept covers').and
      (copy_eq shortens.wellFormed kept covers'))).mono ?_
    rintro _ _ ⟨arena, ⟨⟨preserves, _⟩, rfl, _⟩, rfl⟩
    rw [shortens.solved, shortens.size]
    -- A variable that is kept is monomorphic, so it is none of those that are left alone.
    have fixed : ∀ id ∈ (session.arena.solved stored).vars, id ∈ kept →
        id < session.arena.size ∧ values id = patched settled others values id := by
      intro id occurs member
      refine ⟨covers.solved ready.wellFormed id occurs, (patched_of_notMem ?_).symm⟩
      exact notMem_of_monomorphic ready ((keptIff id).mp member)
    obtain ⟨values', agrees, renamedTo⟩ := exists_values_of_copies values _ fixed
    refine ⟨values', .of_preserves valued (shortens.toPreserves.trans preserves) agrees, ?_⟩
    rw [Ty.subst_subst]
    exact Ty.subst_congr renamedTo
  refine ((freshInstance_yields ready covers).and copied).mono ?_
  rintro ty after ⟨⟨yields, _⟩, values', follows, valueIs⟩
  exact ⟨values', follows, yields.apart, valueIs⟩

/-- A name that is used can be given every value that the type it is bound to grants. -/
theorem inferIdent_attains (valued : session.Valued settled values) {name : String}
    {stored value : Ty} (found : session.scopes.find? name = some stored)
    (grants : Grants settled session.arena values stored value) (span : Option Span) :
    Ensures (inferIdent name span) session fun ty after =>
      ∃ values', session.Attains settled values value ty after values' := by
  have ready := valued.ready
  have covers := ready.covers stored (Scopes.mem_tys_of_find? found)
  have looked : Ensures (lookup name) session fun result after => ∃ ty values',
      result = some ty ∧ session.Attains settled values value ty after values' := by
    refine Ensures.get_bind ?_
    rw [found]
    show Ensures (if _ then _ else _) _ _
    split_ifs with member
    · refine Ensures.pure ⟨stored, values, rfl, .refl valued, ready.apart member, ?_⟩
      obtain ⟨others, rfl⟩ := grants
      rw [← valued.solves.subst_solved ready.wellFormed]
      refine Ty.subst_congr fun id occurs => (patched_of_notMem ?_).symm
      exact ready.avoids stored member id occurs
    · refine Ensures.bind (freshInstance_attains valued covers grants) ?_
      rintro ty after ⟨values', attains⟩
      exact Ensures.pure ⟨ty, values', rfl, attains⟩
  refine Ensures.bind looked ?_
  rintro _ after ⟨ty, values', rfl, attains⟩
  exact Ensures.pure ⟨values', attains⟩

/-! ### Operators -/

theorem requireNumbers_follows (valued : session.Valued settled values) (span : Option Span)
    {left right : Ty} (apart : session.arena.Apart settled left)
    (apart' : session.arena.Apart settled right) (number : left.subst values = .number)
    (number' : right.subst values = .number) :
    Ensures (requireNumbers left right span) session fun _ after =>
      session.Follows settled values after values := by
  refine Ensures.bind (unify_follows valued _ apart (apart_prim _) number) ?_
  intro _ middle follows
  refine Ensures.bind (unify_follows (follows.valued valued) _ (follows.keeps apart')
    (apart_prim _) number') ?_
  intro _ after follows'
  exact Ensures.pure (follows.trans follows')

/-- An operator can be given the types that it has, unless it is that of sums. -/
theorem solveBinary_attains (valued : session.Valued settled values) {operator : Operator}
    (noSum : operator ≠ .add) (span : Option Span) {left right value : Ty}
    (apart : session.arena.Apart settled left) (apart' : session.arena.Apart settled right)
    (types : operator.Types (left.subst values) (right.subst values) value) :
    Ensures (solveBinary operator left right span) session fun ty after =>
      session.Attains settled values value ty after values := by
  have numeric (result : Primitive) (number : left.subst values = .number)
      (number' : right.subst values = .number) :
      Ensures (do requireNumbers left right span; pure (.prim result)) session fun ty after =>
        session.Attains settled values (.prim result) ty after values := by
    refine Ensures.bind (requireNumbers_follows valued span apart apart' number number') ?_
    intro _ after follows
    exact Ensures.pure ⟨follows, apart_prim _, Ty.subst_prim _ _⟩
  generalize leftIs : left.subst values = leftValue at types
  generalize rightIs : right.subst values = rightValue at types
  cases types with
  | join | sum => exact absurd rfl noSum
  | arithmetic member =>
    simp only [List.mem_cons, List.not_mem_nil, or_false] at member
    rcases member with rfl | rfl | rfl <;> exact numeric .number leftIs rightIs
  | comparison member =>
    simp only [List.mem_cons, List.not_mem_nil, or_false] at member
    rcases member with rfl | rfl | rfl | rfl <;> exact numeric .bool leftIs rightIs
  | equality member =>
    have compared : Ensures (do let _ ← unify { span := span } left right; pure (.prim .bool))
        session fun ty after => session.Attains settled values .bool ty after values := by
      refine Ensures.bind (unify_follows valued _ apart apart' (leftIs.trans rightIs.symm)) ?_
      intro _ after follows
      exact Ensures.pure ⟨follows, apart_prim _, Ty.subst_prim _ _⟩
    simp only [List.mem_cons, List.not_mem_nil, or_false] at member
    rcases member with rfl | rfl <;> exact compared

/-! ### Declared types, calls and indices -/

theorem meetDeclared_attains (valued : session.Valued settled values) {inferred value : Ty}
    (apart : session.arena.Apart settled inferred) (inferredIs : inferred.subst values = value)
    {declared : Option WrittenType} (agrees : Declared declared value)
    (site : WrittenType → Site) :
    Ensures (meetDeclared inferred declared site) session fun ty after =>
      ∃ values', session.Attains settled values value ty after values' := by
  cases declared with
  | none => exact Ensures.pure ⟨values, .refl valued, apart, inferredIs⟩
  | some written =>
    refine Ensures.bind (ofWritten_attains written valued (agrees written rfl)) ?_
    rintro ty middle ⟨values', attains⟩
    have same : inferred.subst values' = ty.subst values' := by
      rw [attains.value_eq, attains.subst_eq apart.covers, inferredIs]
    refine Ensures.bind (unify_follows (attains.valued valued) _ (attains.keeps apart)
      attains.apart same) ?_
    intro _ after follows
    exact Ensures.pure ⟨values', attains.follow follows⟩

theorem unifyArguments_follows (span : Option Span) {session : Session}
    (valued : session.Valued settled values) (position : Nat)
    (arguments : List (Option Span × Ty)) (params : List Ty)
    (apart : ∀ argument ∈ arguments, session.arena.Apart settled argument.2)
    (apart' : ∀ param ∈ params, session.arena.Apart settled param)
    (same : (arguments.map Prod.snd).map (Ty.subst values) = params.map (Ty.subst values)) :
    Ensures (unifyArguments span position arguments params) session fun _ after =>
      session.Follows settled values after values := by
  induction arguments generalizing session position params with
  | nil =>
    cases params with
    | nil => exact Ensures.pure (.refl valued)
    | cons param params => cases same
  | cons argument arguments inductionHypothesis =>
    obtain _ | ⟨param, params⟩ := params
    · cases same
    obtain ⟨apart, apartRest⟩ := List.forall_mem_cons.mp apart
    obtain ⟨apart', apartRest'⟩ := List.forall_mem_cons.mp apart'
    obtain ⟨equal, equalRest⟩ := List.cons.inj same
    refine Ensures.bind (unify_follows valued _ apart apart' equal) fun _ middle follows => ?_
    refine (inductionHypothesis (follows.valued valued) (position + 1) params
      (fun other member => follows.keeps (apartRest other member))
      (fun other member => follows.keeps (apartRest' other member)) equalRest).mono ?_
    exact fun _ after follows' => follows.trans follows'

/-- A call can be given the result type of its callee. -/
theorem solveCall_attains (valued : session.Valued settled values) {callee value : Ty}
    {arguments : List (Option Span × Ty)} (apart : session.arena.Apart settled callee)
    (apart' : ∀ argument ∈ arguments, session.arena.Apart settled argument.2)
    (calleeIs : callee.subst values =
      .fn ((arguments.map Prod.snd).map (Ty.subst values)) value) (span : Option Span) :
    Ensures (solveCall callee arguments span) session fun ty after =>
      ∃ values', session.Attains settled values value ty after values' := by
  match callee with
  | .var id =>
    refine Ensures.bind (fresh_attains valued value) ?_
    rintro result middle ⟨values', attains⟩
    have apartArguments : ∀ ty ∈ arguments.map Prod.snd, session.arena.Apart settled ty :=
      List.forall_mem_map.mpr apart'
    have built : middle.arena.Apart settled (.fn (arguments.map Prod.snd) result) :=
      apart_fn.mpr ⟨fun ty member => attains.keeps (apartArguments ty member), attains.apart⟩
    have same : (Ty.var id).subst values' =
        (Ty.fn (arguments.map Prod.snd) result).subst values' := by
      rw [attains.subst_eq apart.covers, calleeIs, Ty.subst_fn, attains.value_eq,
        attains.map_subst_eq fun ty member => (apartArguments ty member).covers]
    refine Ensures.bind (unify_follows (attains.valued valued) _ (attains.keeps apart) built
      same) ?_
    intro _ after follows
    exact Ensures.pure ⟨values', attains.follow follows⟩
  | .fn params result =>
    obtain ⟨apartParams, apartResult⟩ := apart_fn.mp apart
    rw [Ty.subst_fn] at calleeIs
    obtain ⟨paramsAre, resultIs⟩ := Ty.fn.inj calleeIs
    have sameLength : params.length = arguments.length := by
      simpa only [List.length_map] using congrArg List.length paramsAre
    rw [solveCall, if_pos sameLength]
    refine Ensures.bind (unifyArguments_follows span valued 1 arguments params apart' apartParams
      paramsAre.symm) fun _ after follows => ?_
    exact Ensures.pure ⟨values, follows, follows.keeps apartResult, resultIs⟩
  | .prim _ =>
    rw [Ty.subst_prim] at calleeIs
    cases calleeIs
  | .array _ =>
    rw [Ty.subst_array] at calleeIs
    cases calleeIs

/-- An element can be given the type of the elements of what is indexed. -/
theorem solveIndex_attains (valued : session.Valued settled values) {object value : Ty}
    (apart : session.arena.Apart settled object) (objectIs : object.subst values = .array value)
    (site : Site) :
    Ensures (solveIndex object site) session fun ty after =>
      ∃ values', session.Attains settled values value ty after values' := by
  refine Ensures.bind (compress_attains valued apart) fun head middle attains => ?_
  have valued' := attains.valued valued
  have headIs : head.subst values = .array value := attains.value_eq.trans objectIs
  match head with
  | .array element =>
    rw [Ty.subst_array] at headIs
    exact Ensures.pure ⟨values, attains.toFollows, apart_array.mp attains.apart,
      Ty.array.inj headIs⟩
  | .var _ | .prim _ | .fn _ _ =>
    refine Ensures.bind (fresh_attains valued' value) ?_
    rintro element now ⟨values', created⟩
    refine Ensures.bind (unify_follows (created.valued valued') _ (created.keeps attains.apart)
      (apart_array.mpr created.apart) ?_) ?_
    · rw [created.subst_eq attains.apart.covers, headIs, Ty.subst_array, created.value_eq]
    · intro _ after follows
      exact Ensures.pure ⟨values', attains.toFollows.attains (created.follow follows)⟩

end Session

end ArrowCheck
