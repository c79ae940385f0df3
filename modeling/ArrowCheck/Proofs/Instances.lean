/-
This file says which variables an instance of a type has. The free variables of
monomorphic types stay, and all others are generic: they are replaced by new
variables, which are numbered from the end of the arena on in the order in which
the generic variables first occur in the resolved type.

A copy meets the variables of the resolved type one by one from left to right,
although it only resolves the type on its way and changes the arena as it goes.
What it has done at any time is therefore known from the variables that it has
met so far.
-/

import ArrowCheck.Proofs.Specificity

namespace ArrowCheck

namespace Arena

/-! ### Variables that are replaced -/

/-- Of the variables that a copy has met, those that it replaces, in the order in which they were
first met. -/
def replaced (kept met : List VarId) : List VarId :=
  (met.filter fun id => id ∉ kept).eraseDups

section Replaced

variable {kept met : List VarId} {id : VarId}

theorem mem_replaced : id ∈ replaced kept met ↔ id ∈ met ∧ id ∉ kept := by
  rw [replaced, List.mem_eraseDups, List.mem_filter, decide_eq_true_iff]

theorem replaced_congr {kept' : List VarId} (same : ∀ id, id ∈ kept ↔ id ∈ kept') :
    replaced kept met = replaced kept' met := by
  rw [replaced, replaced]
  exact congrArg List.eraseDups (List.filter_congr fun id _ =>
    decide_eq_decide.mpr (not_congr (same id)))

theorem replaced_eq_nil (all : ∀ id ∈ met, id ∈ kept) : replaced kept met = [] :=
  List.eq_nil_iff_forall_not_mem.mpr fun id member =>
    (mem_replaced.mp member).2 (all id (mem_replaced.mp member).1)

/-- Meeting a variable that is kept or was met before adds none. -/
theorem replaced_append_old (old : id ∈ kept ∨ id ∈ met) :
    replaced kept (met ++ [id]) = replaced kept met := by
  rw [replaced, replaced, List.filter_append, List.eraseDups_append, List.append_right_eq_self]
  refine List.eq_nil_iff_forall_not_mem.mpr fun other member => ?_
  simp only [List.mem_eraseDups, List.removeAll, List.mem_filter, List.mem_singleton] at member
  grind

theorem replaced_append_new (unkept : id ∉ kept) (unmet : id ∉ met) :
    replaced kept (met ++ [id]) = replaced kept met ++ [id] := by
  have alone : [id].filter (fun id => id ∉ kept) = [id] :=
    List.filter_eq_self.mpr (by simpa using unkept)
  have new : [id].removeAll (met.filter fun id => id ∉ kept) = [id] :=
    List.filter_eq_self.mpr (by simp [unmet])
  rw [replaced, List.filter_append, List.eraseDups_append, alone, new]
  rfl

theorem nodup_replaced (kept met : List VarId) : (replaced kept met).Nodup := by
  induction met using List.reverseRecOn with
  | nil => exact List.nodup_nil
  | append_singleton met id distinct =>
    by_cases old : id ∈ kept ∨ id ∈ met
    · rw [replaced_append_old old]
      exact distinct
    · obtain ⟨unkept, unmet⟩ := not_or.mp old
      rw [replaced_append_new unkept unmet, ← List.concat_eq_append]
      exact distinct.concat fun member => unmet (mem_replaced.mp member).1

end Replaced

/-! ### Walks that collect -/

section Collect

variable {State : Type} {walk : VarId → StateM State Ty} {found : VarId → List VarId}
  (Holds : List VarId → State → Prop)

theorem mapVarsAll_collects (types : List Ty)
    (each : ∀ ty ∈ types, ∀ met now, Holds met now →
      Ensures (ty.mapVars walk) now fun _ after => Holds (met ++ ty.vars.flatMap found) after)
    {met : List VarId} {now : State} (holds : Holds met now) :
    Ensures (Ty.mapVarsAll walk types) now fun _ after =>
      Holds (met ++ (types.flatMap Ty.vars).flatMap found) after := by
  induction types generalizing met now with
  | nil =>
    rw [List.flatMap_nil, List.flatMap_nil, List.append_nil]
    exact Ensures.pure holds
  | cons head tail inductionHypothesis =>
    obtain ⟨headHolds, tailHolds⟩ := List.forall_mem_cons.mp each
    rw [Ty.mapVarsAll, List.flatMap_cons, List.flatMap_append, ← List.append_assoc]
    refine Ensures.bind (headHolds met now holds) fun _ middle holds => ?_
    exact Ensures.bind (inductionHypothesis tailHolds holds) fun _ after holds => Ensures.pure holds

/-- If what holds at any time depends on what was found so far, and each variable adds to that, then
a walk over a type adds what its variables add, from left to right. -/
theorem mapVars_collects (ty : Ty)
    (each : ∀ id ∈ ty.vars, ∀ met now, Holds met now →
      Ensures (walk id) now fun _ after => Holds (met ++ found id) after)
    {met : List VarId} {now : State} (holds : Holds met now) :
    Ensures (ty.mapVars walk) now fun _ after =>
      Holds (met ++ ty.vars.flatMap found) after := by
  induction ty generalizing met now with
  | var id =>
    rw [Ty.mapVars, Ty.vars, List.flatMap_singleton]
    exact each id (Ty.mem_vars_var.mpr rfl) met now holds
  | prim primitive =>
    rw [Ty.mapVars, Ty.vars, List.flatMap_nil, List.append_nil]
    exact Ensures.pure holds
  | fn params result paramsHold resultHolds =>
    have paramsCollect := mapVarsAll_collects Holds params (fun param member met now holds =>
      paramsHold param member (fun id occurs =>
        each id (Ty.mem_vars_fn.mpr (.inl ⟨param, member, occurs⟩))) holds) holds
    rw [Ty.mapVars, Ty.vars_fn, List.flatMap_append, ← List.append_assoc]
    refine Ensures.bind paramsCollect fun _ middle holds => ?_
    refine Ensures.bind (resultHolds (fun id occurs =>
      each id (Ty.mem_vars_fn.mpr (.inr occurs))) holds) fun _ after holds => ?_
    exact Ensures.pure holds
  | array element elementHolds =>
    rw [Ty.mapVars]
    refine Ensures.bind (elementHolds (fun id occurs =>
      each id (Ty.mem_vars_array.mpr occurs)) holds) fun _ after holds => ?_
    exact Ensures.pure holds

end Collect

/-! ### Numbers of copies -/

/-- Copying from an arena has made copies of some variables, and has numbered them from the end of
the arena on. -/
structure Numbers (arena : Arena) (copied : List VarId) (copying : Copying) : Prop where
  size : copying.arena.size = arena.size + copied.length
  copies : ∀ id, copying.copies.lookup id =
    if id ∈ copied then some (.var (arena.size + copied.idxOf id)) else none

section Numbers

variable {arena : Arena} {kept met copied : List VarId} {now : Copying} {root id : VarId}

theorem numbers_start (arena : Arena) (kept : List VarId) :
    Numbers arena (replaced kept []) { arena := arena } :=
  ⟨rfl, fun _ => rfl⟩

theorem Numbers.shorten (numbers : Numbers arena copied now) {middle : Arena}
    (shortens : now.arena.Shortens middle) : Numbers arena copied ⟨middle, now.copies⟩ :=
  ⟨shortens.size.trans numbers.size, numbers.copies⟩

/-- A new copy gets the next number. -/
theorem Numbers.create (numbers : Numbers arena copied now) (new : root ∉ copied) :
    Numbers arena (copied ++ [root])
      ⟨now.arena.grown, (root, .var now.arena.size) :: now.copies⟩ := by
  refine ⟨?_, fun id => ?_⟩
  · show now.arena.grown.size = _
    rw [size_grown, numbers.size, List.length_append, List.length_singleton, Nat.add_assoc]
  · show List.lookup id ((root, _) :: now.copies) = _
    by_cases same : id = root
    · rw [same, List.lookup_cons_self, if_pos (List.mem_append_right _ (List.mem_singleton_self _)),
        List.idxOf_append_of_notMem new, List.idxOf_cons_self, numbers.size, Nat.add_zero]
    · rw [List.lookup_cons, beq_eq_false_iff_ne.mpr same, numbers.copies]
      by_cases old : id ∈ copied
      · rw [if_pos old, if_pos (List.mem_append_left _ old), List.idxOf_append_of_mem old]
      · rw [if_neg old, if_neg (by simpa [same] using old)]

/-- A free variable is numbered if it is generic and was not met before. -/
theorem copyFree_numbers (numbers : Numbers arena (replaced kept met) now) (root : VarId) :
    Ensures (copyFree kept root) now fun _ after =>
      Numbers arena (replaced kept (met ++ [root])) after := by
  rw [copyFree]
  by_cases member : root ∈ kept
  · rw [if_pos (List.contains_iff_mem.mpr member), replaced_append_old (.inl member)]
    exact Ensures.pure numbers
  · rw [if_neg (fun found => member (List.contains_iff_mem.mp found))]
    refine Ensures.get_bind ?_
    rw [numbers.copies root]
    by_cases old : root ∈ replaced kept met
    · rw [if_pos old, replaced_append_old (.inr (mem_replaced.mp old).1)]
      exact Ensures.pure numbers
    · rw [if_neg old, replaced_append_new member fun met => old (mem_replaced.mpr ⟨met, member⟩)]
      exact numbers.create old

theorem vars_solved (ty : Ty) :
    (arena.solved ty).vars = ty.vars.flatMap fun id => (arena.meaning id).vars :=
  Ty.vars_subst _ _

/-- A walk that meets the variables of each meaning meets those of the meaning of the type. -/
theorem mapVars_numbers {walk : VarId → CopyM Ty} (ty : Ty)
    (each : ∀ id ∈ ty.vars, ∀ met later, CopiesOn arena now later →
      Numbers arena (replaced kept met) later → Ensures (walk id) later fun _ after =>
        CopiesOn arena later after ∧
          Numbers arena (replaced kept (met ++ (arena.meaning id).vars)) after)
    (valid : CopiesFrom arena now) (numbers : Numbers arena (replaced kept met) now) :
    Ensures (ty.mapVars walk) now fun _ after =>
      CopiesOn arena now after ∧
        Numbers arena (replaced kept (met ++ (arena.solved ty).vars)) after := by
  rw [vars_solved]
  refine mapVars_collects (fun met later =>
    CopiesOn arena now later ∧ Numbers arena (replaced kept met) later) ty ?_ ⟨.refl valid, numbers⟩
  rintro id occurs met later ⟨goesOn, numbers⟩
  refine (each id occurs met later goesOn numbers).mono ?_
  rintro _ after ⟨step, numbers⟩
  exact ⟨goesOn.trans step, numbers⟩

/-- Copying what a variable stands for meets the variables of that from left to right. -/
theorem copyVar_numbers {ranking : VarId → Nat} (ranks : Ranks ranking arena) {hops : Nat}
    (enough : ranking id < hops) (valid : CopiesFrom arena now) (known : id < now.arena.size)
    (numbers : Numbers arena (replaced kept met) now) :
    Ensures (copyVar kept hops id) now fun _ after =>
      CopiesOn arena now after ∧
        Numbers arena (replaced kept (met ++ (arena.meaning id).vars)) after := by
  suffices numbered : Ensures (copyVar kept hops id) now fun _ after =>
      Numbers arena (replaced kept (met ++ (arena.meaning id).vars)) after from
    ⟨(copyVar_lasting ranks enough valid known).1, numbered⟩
  induction hops generalizing id now met with
  | zero => exact absurd enough (Nat.not_lt_zero _)
  | succ hops inductionHypothesis =>
    rw [← solved_var]
    refine copyVar_ensures ranks enough valid known (fun middle root shortens meaning _ => ?_)
      fun middle head shortens meaning inside => ?_
    · rw [meaning]
      exact copyFree_numbers (numbers.shorten shortens) root
    · have step : CopiesOn arena now ⟨middle, now.copies⟩ := .of_shortens valid shortens
      rw [meaning]
      refine (mapVars_numbers head (fun other occurs met later goesOn numbers => ?_) step.valid
        (numbers.shorten shortens)).2
      obtain ⟨below, covered⟩ := inside other occurs
      have known := covered.trans_le goesOn.size_le
      exact ⟨(copyVar_lasting ranks below goesOn.valid known).1,
        inductionHypothesis below goesOn.valid known numbers⟩

/-- The renaming that numbers some variables from the end of the arena on. -/
def numbering (arena : Arena) (copied : List VarId) (id : VarId) : VarId :=
  if id ∈ copied then arena.size + copied.idxOf id else id

theorem numbering_of_mem (member : id ∈ copied) :
    arena.numbering copied id = arena.size + copied.idxOf id :=
  if_pos member

theorem numbering_of_not_mem (absent : id ∉ copied) : arena.numbering copied id = id :=
  if_neg absent

theorem Numbers.renamed_eq (numbers : Numbers arena (replaced kept met) now) (occurs : id ∈ met) :
    renamed kept now.copies id = .var (arena.numbering (replaced kept met) id) := by
  by_cases member : id ∈ kept
  · rw [renamed_kept member, numbering_of_not_mem fun generic => (mem_replaced.mp generic).2 member]
  · have generic := mem_replaced.mpr ⟨occurs, member⟩
    rw [numbering_of_mem generic]
    exact renamed_copied member ((numbers.copies id).trans (if_pos generic))

/-- A copy of a type is its meaning with the generic variables numbered. -/
theorem copy_numbers (wellFormed : arena.WellFormed) (kept : List VarId) {ty : Ty}
    (covers : arena.Covers ty) :
    Ensures (copy kept ty) arena fun value after =>
      value = (arena.solved ty).subst
          (fun id => .var (arena.numbering (replaced kept (arena.solved ty).vars) id)) ∧
        after.size = arena.size + (replaced kept (arena.solved ty).vars).length := by
  have start : CopiesFrom arena { arena := arena } := ⟨.refl wellFormed, by simp⟩
  have numbered := mapVars_numbers ty (fun id occurs met now later =>
    copyVar_numbers (ranks_rank wellFormed) (Nat.lt_succ_of_le (arena.rank_le_size id)) later.valid
      ((covers id occurs).trans_le later.size_le)) start (numbers_start arena kept)
  refine ensures_copy_iff.mpr (((copy_lasting wellFormed kept covers).and numbered).mono ?_)
  rintro value after ⟨⟨goesOn, lasts⟩, -, numbers⟩
  obtain ⟨copied, -⟩ := lasts after (.refl goesOn.valid)
  exact ⟨copied.trans (Ty.subst_congr fun id occurs => numbers.renamed_eq occurs), numbers.size⟩

theorem map_numbering (distinct : copied.Nodup) :
    copied.map (arena.numbering copied) = List.range' arena.size copied.length := by
  refine List.ext_getElem (by simp) fun index inside _ => ?_
  rw [List.length_map] at inside
  rw [List.getElem_map, List.getElem_range', numbering_of_mem (List.getElem_mem inside),
    distinct.idxOf_getElem, Nat.one_mul]

end Numbers

end Arena

namespace Session

open Arena

/-- The free variables of the monomorphic types of the innermost scope. -/
def sharedVars (session : Session) : List VarId :=
  session.scopes.current.monomorphic.flatMap fun ty => (resolve ty session).1.vars

/-- The free variables of a type that are not shared, in the order in which they first occur in the
resolved type. -/
def genericVars (session : Session) (ty : Ty) : List VarId :=
  replaced session.sharedVars (resolve ty session).1.vars

/-- A type is the resolved form of another with the generic variables renamed to new ones. The new
variables are free, and nothing else has changed that can be seen. -/
structure IsInstance (before : Session) (ty copy : Ty) (after : Session) : Prop where
  renames : ∃ newId : VarId → VarId,
    copy = (resolve ty before).1.subst (fun id => .var (newId id)) ∧
      (∀ id ∈ before.sharedVars, newId id = id) ∧
      Set.InjOn newId {id | id ∈ before.genericVars ty} ∧
      (before.genericVars ty).map newId =
        List.range' before.arena.size (before.genericVars ty).length
  resolved : (resolve copy after).1 = copy
  size : after.arena.size = before.arena.size + (before.genericVars ty).length
  isFree : ∀ id, before.arena.size ≤ id → id < after.arena.size → after.arena.isFree id = true
  keeps : ∀ other, before.arena.Covers other → (resolve other after).1 = (resolve other before).1
  scopes : after.scopes = before.scopes
  diagnostics : after.diagnostics = before.diagnostics

variable {session : Session}

theorem mem_sharedVars (wellFormed : session.WellFormed) {id : VarId} :
    id ∈ session.sharedVars ↔ session.Monomorphic id := by
  rw [sharedVars, List.mem_flatMap]
  refine exists_congr fun ty => and_congr_right fun member => ?_
  rw [resolve_eq wellFormed.arena (wellFormed.scopes ty (Scopes.mem_tys_of_monomorphic member))]

theorem freshInstance_isInstance (wellFormed : session.WellFormed) {ty : Ty}
    (covers : session.arena.Covers ty) :
    Ensures (freshInstance ty) session (session.IsInstance ty) := by
  refine Ensures.bind (monomorphicVars_ensures wellFormed.ready) ?_
  rintro kept _ ⟨middle, shortens, rfl, keptIff⟩
  have covers' := shortens.covers covers
  refine (onArena_ensures ((copy_ensures shortens.wellFormed kept covers').and
    (copy_numbers shortens.wellFormed kept covers'))).mono ?_
  rintro copy _ ⟨arena, ⟨⟨preserves, isCopy⟩, copied, size⟩, rfl⟩
  have generic_eq : replaced kept (middle.solved ty).vars = session.genericVars ty := by
    rw [genericVars, resolve_eq wellFormed.arena covers, shortens.solved]
    exact replaced_congr fun id => (keptIff id).trans (mem_sharedVars wellFormed).symm
  rw [generic_eq, shortens.solved] at copied
  rw [generic_eq, shortens.size] at size
  have changes := shortens.toPreserves.trans preserves
  have distinct : (session.genericVars ty).Nodup := nodup_replaced _ _
  have numbered : (session.genericVars ty).map (middle.numbering (session.genericVars ty)) =
      List.range' session.arena.size (session.genericVars ty).length := by
    rw [map_numbering distinct, shortens.size]
  refine ⟨⟨middle.numbering (session.genericVars ty), ?_, fun id shared => ?_, ?_, numbered⟩,
    ?_, size, fun id above below => ?_, fun other covers => ?_, rfl, rfl⟩
  · rw [resolve_eq wellFormed.arena covers]
    exact copied
  · exact numbering_of_not_mem fun generic => (mem_replaced.mp generic).2 shared
  · refine List.inj_on_of_nodup_map ?_
    rw [numbered]
    exact List.nodup_range'
  · refine (resolve_eq preserves.wellFormed isCopy.covers).trans ?_
    exact isCopy.solved shortens.wellFormed preserves
  · refine isFree_iff.mpr ⟨below, ?_⟩
    exact (changes.ends (.free (target_eq_none_of_size_le above))).target_root id rfl
  · refine (resolve_eq preserves.wellFormed (changes.covers covers)).trans ?_
    rw [resolve_eq wellFormed.arena covers]
    exact changes.solved other

/-- A type that is monomorphic itself has no generic variables. -/
theorem genericVars_of_monomorphic {ty : Ty} (member : ty ∈ session.scopes.current.monomorphic) :
    session.genericVars ty = [] :=
  replaced_eq_nil fun _ occurs => List.mem_flatMap.mpr ⟨ty, member, occurs⟩

/-- Hence the instance of such a type is the type that it is resolved to. -/
theorem IsInstance.eq_of_monomorphic {ty copy : Ty} {after : Session}
    (isInstance : session.IsInstance ty copy after)
    (member : ty ∈ session.scopes.current.monomorphic) : copy = (resolve ty session).1 := by
  obtain ⟨newId, renamed, fixed, -, -⟩ := isInstance.renames
  rw [renamed]
  refine Ty.subst_eq_self fun id occurs => ?_
  rw [fixed id (List.mem_flatMap.mpr ⟨ty, member, occurs⟩)]

theorem lookup_of_monomorphic {name : String} {stored : Ty}
    (found : session.scopes.find? name = some stored)
    (member : stored ∈ session.scopes.current.monomorphic) :
    Ensures (lookup name) session fun value after => (value, after) = (some stored, session) := by
  refine Ensures.get_bind ?_
  rw [found]
  show Ensures (if _ then _ else _) _ _
  rw [if_pos member]
  exact Ensures.pure rfl

/-- An instance of a type renames the generic variables to the variables that follow the last one,
in the order in which they first occur, and keeps the shared ones. For a name whose type is
monomorphic itself nothing is copied, and an instance would neither create a variable nor be another
type. -/
theorem freshInstance_renames_generic (session : Session) (wellFormed : session.WellFormed) :
    (∀ ty, session.arena.Covers ty →
      Ensures (freshInstance ty) session (session.IsInstance ty)) ∧
    ∀ name stored, session.scopes.find? name = some stored →
      stored ∈ session.scopes.current.monomorphic →
      lookup name session = (some stored, session) ∧
        Ensures (freshInstance stored) session fun copy after =>
          after.arena.size = session.arena.size ∧
            (resolve copy after).1 = (resolve stored session).1 := by
  refine ⟨fun ty covers => freshInstance_isInstance wellFormed covers,
    fun name stored found member => ⟨lookup_of_monomorphic found member, ?_⟩⟩
  have covers := wellFormed.scopes stored (Scopes.mem_tys_of_find? found)
  refine (freshInstance_isInstance wellFormed covers).mono fun copy after isInstance => ⟨?_, ?_⟩
  · rw [isInstance.size, genericVars_of_monomorphic member, List.length_nil, Nat.add_zero]
  · rw [isInstance.resolved, isInstance.eq_of_monomorphic member]

/-- While an array is monomorphic, the variable of its elements is shared, and the other variables
of a function type are renamed, each of them always to the same variable. -/
theorem parameter_instance :
    let arrayed := (perform (.unify {} (.var 0) (.array (.var 1))) (perform .fresh (perform .fresh
      (perform .fresh (perform .fresh (new false)).2).2).2).2).2
    let session : Session :=
      { arrayed with scopes := (arrayed.scopes.push.bind "p" (.var 0)).keep (.var 0) }
    (Ensures (freshInstance (.fn [.var 2, .var 1, .var 3] (.var 2))) session fun copy after =>
      copy = .fn [.var 4, .var 1, .var 5] (.var 4) ∧
        session.IsInstance (.fn [.var 2, .var 1, .var 3] (.var 2)) copy after) ∧
      lookup "p" session = (some (.var 0), session) ∧
      Ensures (freshInstance (.var 0)) session fun copy after =>
        copy = .array (.var 1) ∧ after.arena.size = session.arena.size := by
  intro arrayed session
  have created : (perform .fresh (perform .fresh (perform .fresh (perform .fresh
      (new false)).2).2).2).2.Reachable :=
    ((((Reachable.new false).perform .fresh trivial).perform .fresh trivial).perform .fresh
      trivial).perform .fresh trivial
  have known {arena : Arena} (size : arena.size = 4) {ty : Ty} (below : ∀ id ∈ ty.vars, id < 4) :
      arena.Covers ty :=
    fun id occurs => (below id occurs).trans_eq size.symm
  have reachable : arrayed.Reachable := created.perform (.unify {} (.var 0) (.array (.var 1)))
    ⟨known rfl (by decide), known rfl (by decide)⟩
  have below : ∀ ty ∈ session.scopes.tys, ∀ id ∈ ty.vars, id < 4 := by decide
  have wellFormed : session.WellFormed :=
    ⟨reachable.sound.1.wellFormed, fun ty member => known rfl (below ty member)⟩
  obtain ⟨instances, monomorphic⟩ := freshInstance_renames_generic session wellFormed
  obtain ⟨found, copied⟩ := monomorphic "p" (.var 0) (by decide) (by decide)
  exact ⟨⟨by decide, instances _ (known rfl (by decide))⟩, found, by decide, copied.1⟩

end Session

end ArrowCheck
