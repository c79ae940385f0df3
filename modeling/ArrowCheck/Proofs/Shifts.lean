/-
This file compares an arena with one that has more variables in the middle. Up to
some number the variables of both are the same, and from there on the variables of
the first have their counterparts further up in the second, beyond a gap. Below
the gap only the meanings have to agree. Above it the chains of links end at
corresponding types, which mention only variables above the gap.

All that is done with types from above the gap keeps the two arenas in step:
shortening chains, creating variables, binding a free variable, and copying any
type as long as the variables that are kept lie above the gap.
-/

import ArrowCheck.Proofs.Copies

namespace ArrowCheck

/-! ### Making room for variables -/

/-- A gap between variables: where it starts and how many variables fit into it. -/
structure Gap where
  start : Nat
  width : Nat

namespace Gap

variable (gap : Gap)

/-- The variable that corresponds to a variable when there is a gap. -/
def move (id : Nat) : Nat :=
  if id < gap.start then id else id + gap.width

/-- The variable that moves to a variable. -/
def back (id : Nat) : Nat :=
  if id < gap.start then id else id - gap.width

theorem back_move (id : Nat) : gap.back (gap.move id) = id := by
  rw [back, move]
  split_ifs <;> omega

theorem move_injective : Function.Injective gap.move :=
  Function.LeftInverse.injective gap.back_move

variable {gap} {id : Nat}

theorem move_of_lt (below : id < gap.start) : gap.move id = id :=
  if_pos below

theorem move_of_le (above : gap.start ≤ id) : gap.move id = id + gap.width :=
  if_neg (Nat.not_lt.mpr above)

theorem move_lt {size : Nat} (known : id < size) : gap.move id < size + gap.width := by
  rw [move]
  split_ifs <;> omega

end Gap

namespace Ty

variable (gap : Gap)

/-- A type with its variables replaced by the corresponding ones. -/
def shift (ty : Ty) : Ty :=
  ty.subst fun id => .var (gap.move id)

@[simp] theorem shift_var (id : VarId) : (Ty.var id).shift gap = .var (gap.move id) :=
  rfl

@[simp] theorem shift_prim (primitive : Primitive) :
    (Ty.prim primitive).shift gap = .prim primitive :=
  rfl

@[simp] theorem shift_fn (params : List Ty) (result : Ty) :
    (Ty.fn params result).shift gap = .fn (params.map (shift gap)) (result.shift gap) :=
  subst_fn _ _ _

@[simp] theorem shift_array (element : Ty) :
    (Ty.array element).shift gap = .array (element.shift gap) :=
  rfl

theorem vars_shift (ty : Ty) : (ty.shift gap).vars = ty.vars.map gap.move := by
  rw [shift, vars_subst, List.map_eq_flatMap]
  rfl

theorem subst_shift (values : VarId → Ty) (ty : Ty) :
    (ty.shift gap).subst values = ty.subst fun id => values (gap.move id) :=
  subst_subst _ _ _

theorem shift_subst (values : VarId → Ty) (ty : Ty) :
    (ty.subst values).shift gap = ty.subst fun id => (values id).shift gap :=
  subst_subst _ _ _

variable {gap}

theorem move_mem_vars_shift {id : VarId} {ty : Ty} :
    gap.move id ∈ (ty.shift gap).vars ↔ id ∈ ty.vars := by
  rw [vars_shift, List.mem_map_of_injective gap.move_injective]

theorem shift_eq_self {ty : Ty} (below : ∀ id ∈ ty.vars, id < gap.start) : ty.shift gap = ty :=
  subst_eq_self fun id occurs => congrArg Ty.var (Gap.move_of_lt (below id occurs))

/-- Moving the variables back gives the type again. -/
theorem shift_injective (gap : Gap) : Function.Injective (shift gap) := by
  have undone : Function.LeftInverse (subst fun id => .var (gap.back id)) (shift gap) := by
    intro ty
    rw [subst_shift]
    exact subst_eq_self fun id _ => congrArg Ty.var (gap.back_move id)
  exact undone.injective

theorem shift_eq_var_iff {ty : Ty} {id : VarId} :
    ty.shift gap = .var (gap.move id) ↔ ty = .var id :=
  (shift_injective gap).eq_iff' rfl

end Ty

namespace Arena

/-! ### Types above a gap -/

/-- A type mentions only variables that exist and are not below a gap. -/
def Young (arena : Arena) (gap : Gap) (ty : Ty) : Prop :=
  ∀ id ∈ ty.vars, gap.start ≤ id ∧ id < arena.size

section Young

variable {arena : Arena} {gap : Gap}

theorem young_var {id : VarId} : arena.Young gap (.var id) ↔ gap.start ≤ id ∧ id < arena.size := by
  simp only [Young, Ty.mem_vars_var, forall_eq]

@[simp] theorem young_prim (primitive : Primitive) : arena.Young gap (.prim primitive) :=
  fun _ occurs => absurd occurs Ty.not_mem_vars_prim

@[simp] theorem young_array {element : Ty} :
    arena.Young gap (.array element) ↔ arena.Young gap element := by
  simp only [Young, Ty.mem_vars_array]

theorem young_fn {params : List Ty} {result : Ty} :
    arena.Young gap (.fn params result) ↔
      (∀ param ∈ params, arena.Young gap param) ∧ arena.Young gap result :=
  Ty.forall_mem_vars_fn

theorem Young.covers {ty : Ty} (young : arena.Young gap ty) : arena.Covers ty :=
  fun id occurs => (young id occurs).2

theorem Young.mono {ty : Ty} (young : arena.Young gap ty) {after : Arena}
    (size_le : arena.size ≤ after.size) : after.Young gap ty :=
  fun id occurs => ⟨(young id occurs).1, (young id occurs).2.trans_le size_le⟩

end Young

/-! ### Arenas in step -/

/-- The second arena has room for more variables where the gap is, and is like the first one
otherwise. -/
structure Parallel (gap : Gap) (short long : Arena) : Prop where
  wellFormed : short.WellFormed
  wellFormed' : long.WellFormed
  start_le : gap.start ≤ short.size
  size : long.size = short.size + gap.width
  below : ∀ id < gap.start, long.meaning id = short.meaning id ∧
    ∀ other ∈ (short.meaning id).vars, other < gap.start
  above : ∀ id head, short.Young gap (.var id) → short.Ends (.var id) head →
    short.Young gap head ∧ long.Ends (.var (gap.move id)) (head.shift gap)

namespace Parallel

variable {gap : Gap} {short long : Arena} {ty head : Ty} {id : VarId}

theorem covers (parallel : Parallel gap short long) (covers : short.Covers ty) :
    long.Covers (ty.shift gap) := by
  intro id occurs
  rw [Ty.vars_shift] at occurs
  obtain ⟨source, inside, rfl⟩ := List.mem_map.mp occurs
  rw [parallel.size]
  exact Gap.move_lt (covers source inside)

/-- Chains from corresponding types end at corresponding types. -/
theorem ends (parallel : Parallel gap short long) (young : short.Young gap ty)
    (ends : short.Ends ty head) :
    short.Young gap head ∧ long.Ends (ty.shift gap) (head.shift gap) := by
  cases ty with
  | var id => exact parallel.above id head young ends
  | prim _ | fn _ _ | array _ =>
    cases ends with
    | proper proper => exact ⟨young, .proper (by simp)⟩

/-! #### Meanings -/

/-- A variable above the gap stands for a type from above the gap, and its counterpart for the
corresponding one. -/
theorem meaning_above (parallel : Parallel gap short long) (young : short.Young gap (.var id)) :
    short.Young gap (short.meaning id) ∧
      long.meaning (gap.move id) = (short.meaning id).shift gap := by
  induction ranked : short.rank id using Nat.strong_induction_on generalizing id with
  | _ bound inductionHypothesis =>
    obtain ⟨_, heads, lowers⟩ := compress_ensures parallel.wellFormed young.covers
    generalize (compress (.var id) short).1 = head at heads lowers
    obtain ⟨youngHead, ends⟩ := parallel.ends young heads.ends
    rw [← solved_var, ← heads.solved, ← solved_var, ← Ty.shift_var,
      ← ends.solved parallel.wellFormed']
    by_cases root : ∃ root, head = .var root
    · obtain ⟨root, rfl⟩ := root
      have free := ends.target_root _ (Ty.shift_var gap root)
      rw [solved_var, meaning_of_free (heads.free root rfl), Ty.shift_var, solved_var,
        meaning_of_free free]
      exact ⟨youngHead, rfl⟩
    · -- All variables of the end rank below the variable that leads to it.
      have inner : ∀ other ∈ head.vars, short.Young gap (short.meaning other) ∧
          long.meaning (gap.move other) = (short.meaning other).shift gap := by
        intro other occurs
        refine inductionHypothesis (short.rank other) ?_
          (young_var.mpr (youngHead other occurs)) rfl
        rw [← ranked]
        exact (lowers id rfl).lt_of_mem (ranks_rank parallel.wellFormed)
          (fun found same => root ⟨found, same⟩) occurs
      refine ⟨fun other occurs => ?_, ?_⟩
      · obtain ⟨source, inside, occurs⟩ := mem_vars_solved.mp occurs
        exact (inner source inside).1 other occurs
      · rw [solved, solved, Ty.subst_shift, Ty.shift_subst]
        exact Ty.subst_congr fun other occurs => (inner other occurs).2

theorem meaning (parallel : Parallel gap short long) (known : id < short.size) :
    long.meaning (gap.move id) = (short.meaning id).shift gap := by
  by_cases old : id < gap.start
  · obtain ⟨same, old'⟩ := parallel.below id old
    rw [Gap.move_of_lt old, same, Ty.shift_eq_self old']
  · exact (parallel.meaning_above (young_var.mpr ⟨Nat.not_lt.mp old, known⟩)).2

/-- Corresponding types have corresponding meanings. -/
theorem solved (parallel : Parallel gap short long) (covers : short.Covers ty) :
    long.solved (ty.shift gap) = (short.solved ty).shift gap := by
  rw [Arena.solved, Arena.solved, Ty.subst_shift, Ty.shift_subst]
  exact Ty.subst_congr fun id occurs => parallel.meaning (covers id occurs)

theorem young_solved (parallel : Parallel gap short long) (young : short.Young gap ty) :
    short.Young gap (short.solved ty) := by
  intro id occurs
  obtain ⟨source, inside, occurs⟩ := mem_vars_solved.mp occurs
  exact (parallel.meaning_above (young_var.mpr (young source inside))).1 id occurs

/-! #### Steps -/

/-- Shortening chains and creating as many variables on both sides keeps two arenas in step. -/
theorem preserve {short' long' : Arena} (parallel : Parallel gap short long)
    (preserves : short.Preserves short') (preserves' : long.Preserves long')
    (size : long'.size = short'.size + gap.width) : Parallel gap short' long' where
  wellFormed := preserves.wellFormed
  wellFormed' := preserves'.wellFormed
  start_le := parallel.start_le.trans preserves.size_le
  size := size
  below id old := by
    rw [preserves.meaning, preserves'.meaning]
    exact parallel.below id old
  above id head young ends := by
    obtain ⟨above, known⟩ := young_var.mp young
    obtain ⟨head', ends'⟩ := Ends.exists_head parallel.wellFormed id
    rw [ends.unique (preserves.ends ends')]
    by_cases created : id < short.size
    · obtain ⟨young', ends''⟩ := parallel.above id head' (young_var.mpr ⟨above, created⟩) ends'
      exact ⟨young'.mono preserves.size_le, preserves'.ends ends''⟩
    · -- A variable that did not exist before is free on both sides.
      have outside : short.size ≤ id := Nat.not_lt.mp created
      have outside' : long.size ≤ gap.move id := by
        rw [parallel.size, Gap.move_of_le above]
        exact Nat.add_le_add_right outside _
      rw [ends'.unique (.free (target_eq_none_of_size_le outside))]
      exact ⟨young, preserves'.ends (.free (target_eq_none_of_size_le outside'))⟩

theorem shorten {short' long' : Arena} (parallel : Parallel gap short long)
    (shortens : short.Shortens short') (shortens' : long.Shortens long') :
    Parallel gap short' long' := by
  refine parallel.preserve shortens.toPreserves shortens'.toPreserves ?_
  rw [shortens.size, shortens'.size, parallel.size]

theorem grown (parallel : Parallel gap short long) : Parallel gap short.grown long.grown := by
  refine parallel.preserve (preserves_grown parallel.wellFormed)
    (preserves_grown parallel.wellFormed') ?_
  rw [size_grown, size_grown, parallel.size, Nat.add_right_comm]

/-- Binding a free variable above the gap and its counterpart keeps two arenas in step. -/
theorem link (parallel : Parallel gap short long) (young : short.Young gap (.var id))
    (free : short.target id = none) (young' : short.Young gap ty) (self : short.Ends ty ty)
    (absent : id ∉ (short.solved ty).vars) :
    Parallel gap (short.link id ty) (long.link (gap.move id) (ty.shift gap)) := by
  obtain ⟨above, known⟩ := young_var.mp young
  have free' := (parallel.ends young (.free free)).2.target_root _ rfl
  have self' := (parallel.ends young' self).2
  have known' : gap.move id < long.size := covers_var.mp (parallel.covers young.covers)
  have covers' := parallel.covers young'.covers
  have absent' : gap.move id ∉ (long.solved (ty.shift gap)).vars := by
    rw [parallel.solved young'.covers, Ty.move_mem_vars_shift]
    exact absent
  have different : ty ≠ .var id := by
    rintro rfl
    rw [solved_var, meaning_of_free free, Ty.mem_vars_var] at absent
    exact absent rfl
  have different' : ty.shift gap ≠ .var (gap.move id) := Ty.shift_eq_var_iff.not.mpr different
  refine ⟨parallel.wellFormed.bind free young'.covers absent,
    parallel.wellFormed'.bind free' covers' absent', ?_, ?_, fun other old => ?_,
    fun other head youngOther ends => ?_⟩
  · rw [size_link]
    exact parallel.start_le
  · rw [size_link, size_link, parallel.size]
  · obtain ⟨same, old'⟩ := parallel.below other old
    have outside : id ∉ (short.meaning other).vars :=
      fun occurs => Nat.not_lt.mpr above (old' id occurs)
    have outside' : gap.move id ∉ (short.meaning other).vars := by
      intro occurs
      have moved := old' _ occurs
      rw [Gap.move_of_le above] at moved
      exact Nat.not_lt.mpr (Nat.le_add_right_of_le above) moved
    rw [meaning_bind parallel.wellFormed known free young'.covers absent,
      meaning_bind parallel.wellFormed' known' free' covers' absent', same,
      subst_single_of_not_mem _ outside, subst_single_of_not_mem _ outside']
    exact ⟨rfl, old'⟩
  · have youngOther' : short.Young gap (.var other) := youngOther.mono (size_link _ _ _).le
    obtain ⟨head', ends'⟩ := Ends.exists_head parallel.wellFormed other
    obtain ⟨youngHead, ends''⟩ := parallel.above other head' youngOther' ends'
    rw [ends.unique (self.bind known free different ends')]
    have bound := self'.bind known' free' different' ends''
    by_cases same : head' = .var id
    · rw [if_pos same]
      rw [same, Ty.shift_var, if_pos rfl] at bound
      exact ⟨young'.mono (size_link _ _ _).ge, bound⟩
    · rw [if_neg same]
      rw [if_neg (Ty.shift_eq_var_iff.not.mpr same)] at bound
      exact ⟨youngHead.mono (size_link _ _ _).ge, bound⟩

end Parallel

/-! ### Copies in order -/

/-- The copies after one more free variable was met: a variable that is neither kept nor copied yet
gets the next variable. -/
def noteCopy (kept : List VarId) (first : Nat) (copies : List (VarId × Ty)) (id : VarId) :
    List (VarId × Ty) :=
  if id ∈ kept ∨ (copies.lookup id).isSome then copies
  else (id, .var (first + copies.length)) :: copies

/-- The copies after free variables were met in order. -/
def copiesOf (kept : List VarId) (first : Nat) (ids : List VarId) : List (VarId × Ty) :=
  ids.foldl (noteCopy kept first) []

/-- Copying has met some free variables, in order. -/
structure Noted (kept : List VarId) (arena : Arena) (met : List VarId) (now : Copying) : Prop where
  valid : CopiesFrom arena now
  copies : now.copies = copiesOf kept arena.size met
  size : now.arena.size = arena.size + now.copies.length

theorem copiesOf_append (kept : List VarId) (first : Nat) (ids : List VarId) (id : VarId) :
    copiesOf kept first (ids ++ [id]) = noteCopy kept first (copiesOf kept first ids) id := by
  rw [copiesOf, List.foldl_append, ← copiesOf]
  rfl

section CopiesOf

variable {kept : List VarId} {first : Nat} {ids : List VarId}

/-- A copy that is found was made before or is the one that is noted last. -/
theorem lookup_noteCopy {copies : List (VarId × Ty)} {new id : VarId} {copy : Ty}
    (found : (noteCopy kept first copies new).lookup id = some copy) :
    copies.lookup id = some copy ∨
      (id = new ∧ copy = .var (first + copies.length) ∧
        (noteCopy kept first copies new).length = copies.length + 1) := by
  rw [noteCopy] at found ⊢
  split_ifs at found ⊢
  · exact .inl found
  · rw [List.lookup_cons] at found
    split at found
    · rename_i same
      exact .inr ⟨beq_iff_eq.mp same, (Option.some.inj found).symm, rfl⟩
    · exact .inl found

theorem length_le_noteCopy (copies : List (VarId × Ty)) (new : VarId) :
    copies.length ≤ (noteCopy kept first copies new).length := by
  rw [noteCopy]
  split_ifs
  · exact le_refl _
  · exact Nat.le_succ _

/-- Copies are numbered from the first number on. -/
theorem exists_of_lookup_copiesOf {id : VarId} {copy : Ty}
    (found : (copiesOf kept first ids).lookup id = some copy) :
    ∃ position < (copiesOf kept first ids).length, copy = .var (first + position) := by
  induction ids using List.reverseRecOn with
  | nil => cases found
  | append_singleton ids new inductionHypothesis =>
    rw [copiesOf_append] at found ⊢
    rcases lookup_noteCopy found with earlier | ⟨rfl, copyIs, longer⟩
    · obtain ⟨position, less, copyIs⟩ := inductionHypothesis earlier
      exact ⟨position, less.trans_le (length_le_noteCopy _ _), copyIs⟩
    · exact ⟨_, longer ▸ Nat.lt_succ_self _, copyIs⟩

/-- Different variables have different copies. -/
theorem lookup_copiesOf_injective {id other : VarId} {copy : Ty}
    (found : (copiesOf kept first ids).lookup id = some copy)
    (found' : (copiesOf kept first ids).lookup other = some copy) : id = other := by
  -- A new copy has a number that no earlier copy has.
  have unused {ids : List VarId} {id : VarId} :
      (copiesOf kept first ids).lookup id ≠
        some (.var (first + (copiesOf kept first ids).length)) := by
    intro found
    obtain ⟨position, less, same⟩ := exists_of_lookup_copiesOf found
    exact Nat.ne_of_gt less (Nat.add_left_cancel (Ty.var.inj same))
  induction ids using List.reverseRecOn with
  | nil => cases found
  | append_singleton ids new inductionHypothesis =>
    rw [copiesOf_append] at found found'
    rcases lookup_noteCopy found with earlier | ⟨same, copyIs, _⟩ <;>
      rcases lookup_noteCopy found' with earlier' | ⟨same', copyIs', _⟩
    · exact inductionHypothesis earlier earlier'
    · exact absurd (copyIs' ▸ earlier) unused
    · exact absurd (copyIs ▸ earlier') unused
    · rw [same, same']

theorem isSome_lookup_copiesOf {id : VarId} (member : id ∈ ids) (absent : id ∉ kept) :
    ((copiesOf kept first ids).lookup id).isSome := by
  induction ids using List.reverseRecOn with
  | nil => cases member
  | append_singleton ids new inductionHypothesis =>
    rw [copiesOf_append, noteCopy]
    split_ifs with skipped
    · rcases List.mem_append.mp member with earlier | last
      · exact inductionHypothesis earlier
      · rw [List.mem_singleton.mp last] at absent ⊢
        exact skipped.resolve_left absent
    · rw [List.lookup_cons]
      split
      · rfl
      · rename_i differs
        refine inductionHypothesis ((List.mem_append.mp member).resolve_right fun last => ?_)
        exact beq_eq_false_iff_ne.mp differs (List.mem_singleton.mp last)

/-- The copies of variables can be given any values. -/
theorem exists_values_of_copies (values wanted : VarId → Ty)
    (fixed : ∀ id ∈ ids, id ∈ kept → id < first ∧ values id = wanted id) :
    ∃ values' : VarId → Ty, (∀ id < first, values' id = values id) ∧
      ∀ id ∈ ids, (renamed kept (copiesOf kept first ids) id).subst values' = wanted id := by
  classical
  let Copies (id created : VarId) : Prop :=
    (copiesOf kept first ids).lookup id = some (.var created)
  let values' (created : VarId) : Ty :=
    if copied : ∃ id, Copies id created then wanted copied.choose else values created
  have agrees : ∀ id < first, values' id = values id := by
    refine fun id less => dif_neg ?_
    rintro ⟨source, found⟩
    obtain ⟨position, _, same⟩ := exists_of_lookup_copiesOf found
    rw [Ty.var.inj same] at less
    exact Nat.not_lt.mpr (Nat.le_add_right _ _) less
  refine ⟨values', agrees, fun id member => ?_⟩
  by_cases absent : id ∈ kept
  · obtain ⟨less, same⟩ := fixed id member absent
    rw [renamed_kept absent, Ty.subst_var, agrees id less, same]
  · obtain ⟨copy, found⟩ := Option.isSome_iff_exists.mp (isSome_lookup_copiesOf member absent)
    obtain ⟨position, _, rfl⟩ := exists_of_lookup_copiesOf found
    have copied : ∃ source, Copies source (first + position) := ⟨id, found⟩
    rw [renamed_copied absent found, Ty.subst_var]
    show (if copied : _ then _ else _) = _
    rw [dif_pos copied, lookup_copiesOf_injective copied.choose_spec found]

end CopiesOf

section Noted

variable {arena : Arena} {kept met : List VarId} {now : Copying}

theorem copyFree_noted (noted : Noted kept arena met now) (root : VarId) :
    Ensures (copyFree kept root) now fun _ after => Noted kept arena (met ++ [root]) after := by
  have unchanged (skipped : root ∈ kept ∨ (now.copies.lookup root).isSome) :
      Noted kept arena (met ++ [root]) now := by
    refine ⟨noted.valid, ?_, noted.size⟩
    rw [copiesOf_append, ← noted.copies, noteCopy, if_pos skipped]
  rw [copyFree]
  by_cases member : root ∈ kept
  · rw [if_pos (List.contains_iff_mem.mpr member)]
    exact Ensures.pure (unchanged (.inl member))
  · rw [if_neg fun found => member (List.contains_iff_mem.mp found)]
    refine Ensures.get_bind ?_
    cases found : now.copies.lookup root with
    | some copy => exact Ensures.pure (unchanged (.inr (by rw [found]; rfl)))
    | none =>
      refine Ensures.bind (onArena_ensures (fresh_ensures now.arena)) ?_
      rintro _ ⟨_, _⟩ ⟨⟨created, grown⟩, same⟩
      simp only at grown same
      subst created grown same
      refine Ensures.modify_bind
        (Ensures.pure ⟨(CopiesOn.of_created noted.valid found).valid, ?_, ?_⟩)
      · show (root, Ty.var now.arena.size) :: now.copies = _
        rw [copiesOf_append, ← noted.copies, noteCopy, if_neg, noted.size]
        rw [found]
        exact fun skipped => skipped.elim member Bool.false_ne_true
      · show now.arena.grown.size = _ + (_ :: now.copies).length
        rw [size_grown, noted.size, List.length_cons, Nat.add_assoc]

theorem mapVarsAll_noted {walk : VarId → CopyM Ty} (types : List Ty)
    (each : ∀ ty ∈ types, ∀ {met now}, Noted kept arena met now →
      Ensures (ty.mapVars walk) now fun _ after =>
        Noted kept arena (met ++ (arena.solved ty).vars) after)
    (noted : Noted kept arena met now) :
    Ensures (Ty.mapVarsAll walk types) now fun _ after =>
      Noted kept arena (met ++ (types.map arena.solved).flatMap Ty.vars) after := by
  induction types generalizing met now with
  | nil =>
    refine Ensures.pure ?_
    rw [List.map_nil, List.flatMap_nil, List.append_nil]
    exact noted
  | cons head tail inductionHypothesis =>
    obtain ⟨headNoted, tailNoted⟩ := List.forall_mem_cons.mp each
    rw [Ty.mapVarsAll]
    refine Ensures.bind (headNoted noted) fun _ middle noted => ?_
    refine Ensures.bind (inductionHypothesis tailNoted noted) fun _ after noted => Ensures.pure ?_
    rw [List.map_cons, List.flatMap_cons, ← List.append_assoc]
    exact noted

/-- A walk that meets the free variables of the meaning of each variable meets those of the meaning
of the type. -/
theorem mapVars_noted {walk : VarId → CopyM Ty} (ty : Ty)
    (each : ∀ id ∈ ty.vars, ∀ {met now}, Noted kept arena met now →
      Ensures (walk id) now fun _ after =>
        Noted kept arena (met ++ (arena.meaning id).vars) after)
    (noted : Noted kept arena met now) :
    Ensures (ty.mapVars walk) now fun _ after =>
      Noted kept arena (met ++ (arena.solved ty).vars) after := by
  induction ty generalizing met now with
  | var id =>
    rw [Ty.mapVars, solved_var]
    exact each id (Ty.mem_vars_var.mpr rfl) noted
  | prim primitive =>
    rw [Ty.mapVars, solved_prim]
    refine Ensures.pure ?_
    rw [Ty.vars, List.append_nil]
    exact noted
  | fn params result paramsHold resultHolds =>
    have parts := mapVarsAll_noted params (fun param member _ _ noted =>
      paramsHold param member (fun id occurs =>
        each id (Ty.mem_vars_fn.mpr (.inl ⟨param, member, occurs⟩))) noted) noted
    rw [Ty.mapVars, solved_fn, Ty.vars_fn, ← List.append_assoc]
    refine Ensures.bind parts fun _ middle noted => ?_
    refine Ensures.bind (resultHolds (fun id occurs =>
      each id (Ty.mem_vars_fn.mpr (.inr occurs))) noted) ?_
    exact fun _ after noted => Ensures.pure noted
  | array element elementHolds =>
    rw [Ty.mapVars, solved_array]
    exact Ensures.bind (elementHolds each noted) fun _ after noted => Ensures.pure noted

theorem copyVar_noted (wellFormed : arena.WellFormed) {hops : Nat} {id : VarId}
    (known : id < arena.size) (enough : arena.rank id < hops) (noted : Noted kept arena met now) :
    Ensures (copyVar kept hops id) now fun _ after =>
      Noted kept arena (met ++ (arena.meaning id).vars) after := by
  induction hops generalizing id met now with
  | zero => exact absurd enough (Nat.not_lt_zero _)
  | succ hops inductionHypothesis =>
    have preserves := noted.valid.preserves
    obtain ⟨_, heads, lowers⟩ := compress_ensures wellFormed (covers_var.mpr known)
    generalize (compress (.var id) arena).1 = head at heads lowers
    rw [copyVar]
    refine Ensures.bind (onArena_ensures (compress_ensures preserves.wellFormed
      (covers_var.mpr (known.trans_le preserves.size_le)))) ?_
    rintro head' ⟨middle, _⟩ ⟨⟨shortens, heads', -⟩, same⟩
    simp only at shortens same
    subst same
    -- The chain ends where it ended before copying began.
    obtain rfl := heads'.ends.unique (preserves.ends heads.ends)
    have noted' : Noted kept arena met ⟨middle, now.copies⟩ :=
      ⟨(CopiesOn.of_shortens noted.valid shortens).valid, noted.copies,
        shortens.size.trans noted.size⟩
    have inner (proper : ∀ root, head' ≠ .var root) :
        Ensures (head'.mapVars (copyVar kept hops)) ⟨middle, now.copies⟩ fun _ after =>
          Noted kept arena (met ++ (arena.solved head').vars) after := by
      refine mapVars_noted head' (fun other occurs _ _ noted => ?_) noted'
      have below := (lowers id rfl).lt_of_mem (ranks_rank wellFormed) proper occurs
      exact inductionHypothesis (heads.covers other occurs) (by omega) noted
    rw [← solved_var, ← heads.solved]
    cases head' with
    | var root =>
      rw [solved_var, meaning_of_free (heads.free root rfl)]
      exact copyFree_noted noted' root
    | prim _ | fn _ _ | array _ => exact inner (by simp)

end Noted

/-- A copy is determined by the meaning of the type, by what is kept and by the number of variables.
-/
theorem copy_eq {arena : Arena} (wellFormed : arena.WellFormed) (kept : List VarId) {ty : Ty}
    (covers : arena.Covers ty) :
    Ensures (copy kept ty) arena fun value after =>
      let copies := copiesOf kept arena.size (arena.solved ty).vars
      value = (arena.solved ty).subst (renamed kept copies) ∧
        after.size = arena.size + copies.length := by
  have start : Noted kept arena [] { arena := arena } := ⟨⟨.refl wellFormed, nofun⟩, rfl, rfl⟩
  have noted := mapVars_noted ty (fun id occurs => copyVar_noted wellFormed (covers id occurs)
    (Nat.lt_succ_of_le (arena.rank_le_size id))) start
  refine ensures_copy_iff.mpr (Ensures.mono
    (Ensures.and (copy_lasting wellFormed kept covers) noted) ?_)
  intro value after ⟨⟨step, lasts⟩, noted⟩
  have copyOf := (lasts after (.refl step.valid)).copy_eq
  have size := noted.size
  rw [noted.copies] at copyOf size
  exact ⟨copyOf, size⟩

/-! ### Copies on both sides of a gap -/

section CopyShift

variable {gap : Gap}

/-- Copies with both sides replaced by the corresponding ones. -/
def shiftCopies (gap : Gap) (copies : List (VarId × Ty)) : List (VarId × Ty) :=
  copies.map (Prod.map gap.move (Ty.shift gap))

theorem lookup_shiftCopies (copies : List (VarId × Ty)) (id : VarId) :
    (shiftCopies gap copies).lookup (gap.move id) = (copies.lookup id).map (Ty.shift gap) := by
  induction copies with
  | nil => rfl
  | cons head tail inductionHypothesis =>
    obtain ⟨source, copy⟩ := head
    show List.lookup _ ((gap.move source, copy.shift gap) :: shiftCopies gap tail) = _
    rw [List.lookup_cons, List.lookup_cons, inductionHypothesis]
    by_cases same : id = source
    · rw [same, beq_self_eq_true, beq_self_eq_true]
      rfl
    · rw [beq_eq_false_iff_ne.mpr same,
        beq_eq_false_iff_ne.mpr fun equal => same (gap.move_injective equal)]

theorem renamed_shift (kept : List VarId) (copies : List (VarId × Ty)) (id : VarId) :
    renamed (kept.map gap.move) (shiftCopies gap copies) (gap.move id) =
      (renamed kept copies id).shift gap := by
  simp only [renamed, lookup_shiftCopies, List.mem_map_of_injective gap.move_injective]
  split_ifs
  · rfl
  · cases copies.lookup id <;> rfl

theorem noteCopy_shift (kept : List VarId) {first : Nat} (above : gap.start ≤ first)
    (copies : List (VarId × Ty)) (id : VarId) :
    noteCopy (kept.map gap.move) (first + gap.width) (shiftCopies gap copies) (gap.move id) =
      shiftCopies gap (noteCopy kept first copies id) := by
  have next : gap.move (first + copies.length) = first + gap.width + copies.length := by
    rw [Gap.move_of_le (above.trans (Nat.le_add_right _ _)), Nat.add_right_comm]
  simp only [noteCopy, lookup_shiftCopies, List.mem_map_of_injective gap.move_injective,
    Option.isSome_map]
  split_ifs
  · rfl
  · rw [shiftCopies, List.length_map, ← next]
    rfl

theorem copiesOf_shift (kept : List VarId) {first : Nat} (above : gap.start ≤ first)
    (ids : List VarId) :
    copiesOf (kept.map gap.move) (first + gap.width) (ids.map gap.move) =
      shiftCopies gap (copiesOf kept first ids) := by
  induction ids using List.reverseRecOn with
  | nil => rfl
  | append_singleton ids id inductionHypothesis =>
    rw [List.map_append, List.map_singleton, copiesOf_append, copiesOf_append, inductionHypothesis,
      noteCopy_shift kept above]

/-- A type and its counterpart have corresponding copies. -/
theorem Parallel.copy {short long : Arena} (parallel : Parallel gap short long)
    {kept : List VarId} (above : ∀ id ∈ kept, gap.start ≤ id) {ty : Ty} (covers : short.Covers ty) :
    Parallel gap (copy kept ty short).2 (copy (kept.map gap.move) (ty.shift gap) long).2 ∧
      short.size ≤ (copy kept ty short).2.size ∧
      (copy kept ty short).2.Young gap (copy kept ty short).1 ∧
      (copy (kept.map gap.move) (ty.shift gap) long).1 = (copy kept ty short).1.shift gap := by
  obtain ⟨preserves, isCopy⟩ := copy_ensures parallel.wellFormed kept covers
  obtain ⟨preserves', -⟩ := copy_ensures parallel.wellFormed' (kept.map gap.move)
    (parallel.covers covers)
  obtain ⟨value, size⟩ := copy_eq parallel.wellFormed kept covers
  obtain ⟨value', size'⟩ := copy_eq parallel.wellFormed' (kept.map gap.move)
    (parallel.covers covers)
  rw [parallel.solved covers, parallel.size, Ty.vars_shift,
    copiesOf_shift kept parallel.start_le] at value' size'
  refine ⟨parallel.preserve preserves preserves' ?_, preserves.size_le, fun id occurs => ?_, ?_⟩
  · rw [size, size', shiftCopies, List.length_map, Nat.add_right_comm]
  · refine ⟨?_, isCopy.covers id occurs⟩
    obtain ⟨values, copied, fixed, created⟩ := isCopy.renames
    rw [copied] at occurs
    obtain ⟨source, inside, occurs⟩ := Ty.mem_vars_subst.mp occurs
    by_cases member : source ∈ kept
    · rw [fixed source member, Ty.mem_vars_var] at occurs
      rw [occurs]
      exact above source member
    · obtain ⟨new, valueIs, outside⟩ := created source inside member
      rw [valueIs, Ty.mem_vars_var] at occurs
      rw [occurs]
      exact parallel.start_le.trans outside
  · rw [value, value', Ty.subst_shift, Ty.shift_subst]
    exact Ty.subst_congr fun id _ => renamed_shift kept _ id

end CopyShift

end Arena

end ArrowCheck
