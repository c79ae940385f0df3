/-
This file says what a copy of a type is. The free variables that are to be kept
stay, and each of the others is replaced by a variable that did not exist before,
always by the same one. So a copy is the meaning of the type under a renaming,
and making it changes the meaning of no variable.
-/

import ArrowCheck.Proofs.Walks

namespace ArrowCheck.Arena

/-- What a free variable becomes, given the copies made so far. -/
def renamed (kept : List VarId) (copies : List (VarId × Ty)) (id : VarId) : Ty :=
  if id ∈ kept then .var id else (copies.lookup id).getD (.var id)

/-- Copying starts from an arena and has only created variables since. -/
structure CopiesFrom (arena : Arena) (copying : Copying) : Prop where
  preserves : Preserves arena copying.arena
  fresh : ∀ id copy, copying.copies.lookup id = some copy →
    ∃ created, copy = .var created ∧ arena.size ≤ created ∧ created < copying.arena.size

/-- Copying has gone on, and no copy was forgotten. -/
structure CopiesOn (arena : Arena) (before after : Copying) : Prop where
  valid : CopiesFrom arena after
  size_le : before.arena.size ≤ after.arena.size
  keeps : ∀ id copy, before.copies.lookup id = some copy → after.copies.lookup id = some copy

/-- A type is the meaning of another with its free variables renamed, of which those that are not
kept have a copy each. -/
structure CopyOf (arena : Arena) (kept : List VarId) (ty copy : Ty) (copying : Copying) : Prop where
  copy_eq : copy = (arena.solved ty).subst (renamed kept copying.copies)
  copied : ∀ id ∈ (arena.solved ty).vars, id ∉ kept → (copying.copies.lookup id).isSome

theorem fresh_ensures (arena : Arena) :
    Ensures fresh arena fun value after => value = .var arena.size ∧ after = arena.grown :=
  ⟨rfl, rfl⟩

theorem onArena_ensures {Result : Type} {action : ArenaM Result} {copying : Copying}
    {post : Result → Arena → Prop} (holds : Ensures action copying.arena post) :
    Ensures (Copying.onArena action) copying fun value after =>
      post value after.arena ∧ after.copies = copying.copies :=
  ⟨holds, rfl⟩

section Copy

variable {arena : Arena} {kept : List VarId}

theorem CopiesOn.refl {copying : Copying} (valid : CopiesFrom arena copying) :
    CopiesOn arena copying copying :=
  ⟨valid, le_refl _, fun _ _ found => found⟩

theorem CopiesOn.trans {first second third : Copying} (before : CopiesOn arena first second)
    (after : CopiesOn arena second third) : CopiesOn arena first third :=
  ⟨after.valid, before.size_le.trans after.size_le,
    fun id copy found => after.keeps id copy (before.keeps id copy found)⟩

theorem renamed_kept {copies : List (VarId × Ty)} {id : VarId} (member : id ∈ kept) :
    renamed kept copies id = .var id :=
  if_pos member

theorem renamed_copied {copies : List (VarId × Ty)} {id : VarId} {copy : Ty} (absent : id ∉ kept)
    (found : copies.lookup id = some copy) : renamed kept copies id = copy := by
  rw [renamed, if_neg absent, found, Option.getD_some]

/-- Creating a copy of a variable that has none loses no other copy. -/
theorem CopiesOn.of_created {now : Copying} (valid : CopiesFrom arena now) {root : VarId}
    (absent : now.copies.lookup root = none) :
    CopiesOn arena now ⟨now.arena.grown, (root, .var now.arena.size) :: now.copies⟩ := by
  have grows : Preserves now.arena now.arena.grown := preserves_grown valid.preserves.wellFormed
  refine ⟨⟨valid.preserves.trans grows, fun id copy found => ?_⟩, grows.size_le,
    fun id copy found => ?_⟩
  · rw [List.lookup_cons] at found
    split at found
    · cases found
      refine ⟨_, rfl, valid.preserves.size_le, ?_⟩
      rw [size_grown]
      exact Nat.lt_succ_self _
    · obtain ⟨created, copyIs, above, below⟩ := valid.fresh id copy found
      exact ⟨created, copyIs, above, below.trans_le grows.size_le⟩
  · rw [List.lookup_cons]
    split
    · rename_i same
      rw [beq_iff_eq.mp same, absent] at found
      cases found
    · exact found

/-- Shortening chains while a type is copied loses no copy. -/
theorem CopiesOn.of_shortens {now : Copying} (valid : CopiesFrom arena now) {middle : Arena}
    (shortens : Shortens now.arena middle) : CopiesOn arena now ⟨middle, now.copies⟩ := by
  refine ⟨⟨valid.preserves.trans shortens.toPreserves, fun id copy found => ?_⟩,
    shortens.size_le, fun _ _ found => found⟩
  obtain ⟨created, copyIs, above, below⟩ := valid.fresh id copy found
  exact ⟨created, copyIs, above, below.trans_le shortens.size_le⟩

theorem copyOf_root {root : VarId} (free : arena.solved (.var root) = .var root) {copy : Ty}
    {copying : Copying} (copyIs : copy = renamed kept copying.copies root)
    (copied : root ∉ kept → (copying.copies.lookup root).isSome) :
    CopyOf arena kept (.var root) copy copying := by
  refine ⟨?_, fun id occurs => ?_⟩
  · rw [free, Ty.subst_var, copyIs]
  · rw [free, Ty.mem_vars_var] at occurs
    rw [occurs]
    exact copied

/-- A free variable is copied once and for all. -/
theorem copyFree_lasting {now : Copying} (valid : CopiesFrom arena now) {root : VarId}
    (free : arena.solved (.var root) = .var root) :
    Lasting (CopiesOn arena) (copyFree kept root) now (CopyOf arena kept (.var root)) := by
  rw [copyFree]
  by_cases member : root ∈ kept
  · rw [if_pos (List.contains_iff_mem.mpr member)]
    refine .pure (.refl valid) fun last _ => copyOf_root free ?_ fun absent => absurd member absent
    rw [renamed_kept member]
  · rw [if_neg (fun found => member (List.contains_iff_mem.mp found))]
    have stays {copying last : Copying} {copy : Ty} (later : CopiesOn arena copying last)
        (found : copying.copies.lookup root = some copy) :
        CopyOf arena kept (.var root) copy last := by
      have found' := later.keeps root copy found
      refine copyOf_root free (renamed_copied member found').symm fun _ => ?_
      rw [found']
      rfl
    refine Ensures.get_bind ?_
    cases found : now.copies.lookup root with
    | some copy => exact Ensures.pure ⟨.refl valid, fun last later => stays later found⟩
    | none =>
      refine Ensures.bind (onArena_ensures (fresh_ensures now.arena)) ?_
      intro _ ⟨_, _⟩ ⟨⟨created, grown⟩, same⟩
      simp only at grown same
      subst created grown same
      exact Ensures.modify_bind (Ensures.pure ⟨.of_created valid found,
        fun last later => stays later List.lookup_cons_self⟩)

/-- A walk that copies the meaning of each variable copies the meaning of the type. -/
theorem mapVars_copies {now : Copying} (valid : CopiesFrom arena now) {walk : VarId → CopyM Ty}
    (ty : Ty)
    (each : ∀ id ∈ ty.vars, ∀ later, CopiesOn arena now later →
      Lasting (CopiesOn arena) (walk id) later (CopyOf arena kept (.var id))) :
    Lasting (CopiesOn arena) (ty.mapVars walk) now (CopyOf arena kept ty) := by
  have lasting : Lasting (CopiesOn arena) (ty.mapVars walk) now fun value last =>
      value = ty.subst (fun id => (arena.meaning id).subst (renamed kept last.copies)) ∧
        ∀ id ∈ ty.vars, ∀ other ∈ (arena.meaning id).vars, other ∉ kept →
          (last.copies.lookup other).isSome := by
    refine mapVars_lasting (CopiesOn arena) CopiesOn.trans (fun later => .refl later.valid) ty ?_
      (.refl valid)
    intro id occurs later goesOn
    refine (each id occurs later goesOn).mono fun value last copyOf => ?_
    rw [← solved_var]
    exact ⟨copyOf.copy_eq, copyOf.copied⟩
  refine lasting.mono fun value last ⟨valueIs, copied⟩ => ⟨?_, fun id occurs => ?_⟩
  · rw [valueIs, subst_solved]
  · obtain ⟨source, inside, occurs⟩ := mem_vars_solved.mp occurs
    exact copied source inside id occurs

/-- Copying a type of the same meaning, after some steps, gives the copy that is asked for. -/
theorem copies_of_same {now middle : Copying} (step : CopiesOn arena now middle) {ty other : Ty}
    (same : arena.solved ty = arena.solved other) {action : CopyM Ty}
    (lasting : Lasting (CopiesOn arena) action middle (CopyOf arena kept other)) :
    Ensures action middle fun value after => CopiesOn arena now after ∧
      ∀ last, CopiesOn arena after last → CopyOf arena kept ty value last := by
  refine ⟨step.trans lasting.1, fun last later => ?_⟩
  obtain ⟨copyIs, copied⟩ := lasting.2 last later
  rw [← same] at copyIs copied
  exact ⟨copyIs, copied⟩

/-- Copying a variable shortens its chain and goes on with what stands at the end: a free variable
or a type of the same meaning. The variables in such a type lie below the first one, so the bound is
large enough for them. -/
theorem copyVar_ensures {ranking : VarId → Nat} (ranks : Ranks ranking arena) {hops : Nat}
    {id : VarId} (enough : ranking id < hops + 1) {now : Copying} (valid : CopiesFrom arena now)
    (known : id < now.arena.size) {post : Ty → Copying → Prop}
    (free : ∀ middle root, now.arena.Shortens middle → arena.solved (.var id) = .var root →
      arena.solved (.var root) = .var root →
        Ensures (copyFree kept root) ⟨middle, now.copies⟩ post)
    (proper : ∀ middle head, now.arena.Shortens middle →
      arena.solved (.var id) = arena.solved head →
      (∀ other ∈ head.vars, ranking other < hops ∧ other < middle.size) →
        Ensures (head.mapVars (copyVar kept hops)) ⟨middle, now.copies⟩ post) :
    Ensures (copyVar kept (hops + 1) id) now post := by
  rw [copyVar]
  refine Ensures.bind (onArena_ensures (compress_ensures valid.preserves.wellFormed
    (covers_var.mpr known))) ?_
  rintro head ⟨middle, _⟩ ⟨⟨shortens, heads, lowers⟩, rfl⟩
  have meaning : arena.solved (.var id) = arena.solved head := by
    rw [← valid.preserves.solved, ← valid.preserves.solved, heads.solved]
  have inside (notVar : ∀ root, head ≠ .var root) :
      ∀ other ∈ head.vars, ranking other < hops ∧ other < middle.size := by
    intro other occurs
    have below := (lowers id rfl).lt_of_mem (valid.preserves.ranks _ ranks) notVar occurs
    exact ⟨by omega, (heads.covers other occurs).trans_eq shortens.size.symm⟩
  cases head with
  | var root =>
    have rootFree : arena.solved (.var root) = .var root := by
      rw [← meaning, ← valid.preserves.solved, heads.meaning_root]
    exact free middle root shortens (meaning.trans rootFree) rootFree
  | prim _ | fn _ _ | array _ => exact proper middle _ shortens meaning (inside (by simp))

theorem copyVar_lasting {ranking : VarId → Nat} (ranks : Ranks ranking arena) {hops : Nat}
    {id : VarId} (enough : ranking id < hops) {now : Copying} (valid : CopiesFrom arena now)
    (known : id < now.arena.size) :
    Lasting (CopiesOn arena) (copyVar kept hops id) now (CopyOf arena kept (.var id)) := by
  induction hops generalizing id now with
  | zero => exact absurd enough (Nat.not_lt_zero _)
  | succ hops inductionHypothesis =>
    refine copyVar_ensures ranks enough valid known (fun middle root shortens meaning free => ?_)
      fun middle head shortens meaning inside => ?_
    · have step : CopiesOn arena now ⟨middle, now.copies⟩ := .of_shortens valid shortens
      exact copies_of_same step (meaning.trans free.symm) (copyFree_lasting step.valid free)
    · have step : CopiesOn arena now ⟨middle, now.copies⟩ := .of_shortens valid shortens
      refine copies_of_same step meaning (mapVars_copies step.valid head ?_)
      intro other occurs later goesOn
      obtain ⟨below, covered⟩ := inside other occurs
      exact inductionHypothesis below goesOn.valid (covered.trans_le goesOn.size_le)

/-- A copy is the meaning of the type with the free variables renamed that are not kept. -/
structure IsCopy (before after : Arena) (kept : List VarId) (ty copy : Ty) : Prop where
  covers : after.Covers copy
  renames : ∃ values : VarId → Ty, copy = (before.solved ty).subst values ∧
    (∀ id ∈ kept, values id = .var id) ∧
    ∀ id ∈ (before.solved ty).vars, id ∉ kept →
      ∃ created, values id = .var created ∧ before.size ≤ created

theorem CopyOf.isCopy (wellFormed : arena.WellFormed) {ty copy : Ty} (covers : arena.Covers ty)
    {last : Copying} (valid : CopiesFrom arena last) (copyOf : CopyOf arena kept ty copy last) :
    IsCopy arena last.arena kept ty copy := by
  obtain ⟨copyIs, copied⟩ := copyOf
  subst copyIs
  have created : ∀ id ∈ (arena.solved ty).vars, id ∉ kept → ∃ created,
      renamed kept last.copies id = .var created ∧ arena.size ≤ created ∧
        created < last.arena.size := by
    intro id occurs absent
    obtain ⟨copy, found⟩ := Option.isSome_iff_exists.mp (copied id occurs absent)
    obtain ⟨created, copyIs, above, below⟩ := valid.fresh id copy found
    rw [copyIs] at found
    exact ⟨created, renamed_copied absent found, above, below⟩
  refine ⟨fun id occurs => ?_, _, rfl, fun id member => renamed_kept member,
    fun id occurs absent => ?_⟩
  · obtain ⟨source, inside, occurs⟩ := Ty.mem_vars_subst.mp occurs
    by_cases member : source ∈ kept
    · rw [renamed_kept member, Ty.mem_vars_var] at occurs
      rw [occurs]
      exact (covers.solved wellFormed source inside).trans_le valid.preserves.size_le
    · obtain ⟨created, renamedTo, _, below⟩ := created source inside member
      rw [renamedTo, Ty.mem_vars_var] at occurs
      rw [occurs]
      exact below
  · obtain ⟨created, renamedTo, above, _⟩ := created id occurs absent
    exact ⟨created, renamedTo, above⟩

/-- The variables of a copy are free. -/
theorem IsCopy.solved {after : Arena} (wellFormed : arena.WellFormed)
    (preserves : Preserves arena after) {ty copy : Ty} (isCopy : IsCopy arena after kept ty copy) :
    after.solved copy = copy := by
  obtain ⟨values, rfl, fixed, renamed⟩ := isCopy.renames
  rw [preserves.solved]
  refine Ty.subst_eq_self fun id occurs => meaning_of_free ?_
  obtain ⟨source, inside, occurs⟩ := Ty.mem_vars_subst.mp occurs
  by_cases member : source ∈ kept
  · rw [fixed source member, Ty.mem_vars_var] at occurs
    rw [occurs]
    exact target_of_mem_solved wellFormed inside
  · obtain ⟨created, valueIs, above⟩ := renamed source inside member
    rw [valueIs, Ty.mem_vars_var] at occurs
    rw [occurs]
    exact target_eq_none_of_size_le above

theorem ensures_copy_iff {ty : Ty} {post : Ty → Arena → Prop} :
    Ensures (copy kept ty) arena post ↔
      Ensures (ty.mapVars (copyVar kept (arena.size + 1))) { arena := arena } fun value after =>
        post value after.arena :=
  Iff.rfl

/-- Copying a type copies its meaning once and for all. -/
theorem copy_lasting (wellFormed : arena.WellFormed) (kept : List VarId) {ty : Ty}
    (covers : arena.Covers ty) :
    Lasting (CopiesOn arena) (ty.mapVars (copyVar kept (arena.size + 1))) { arena := arena }
      (CopyOf arena kept ty) := by
  have start : CopiesFrom arena { arena := arena } := ⟨.refl wellFormed, nofun⟩
  refine mapVars_copies start ty fun id occurs now later => ?_
  exact copyVar_lasting (ranks_rank wellFormed) (Nat.lt_succ_of_le (arena.rank_le_size id))
    later.valid ((covers id occurs).trans_le later.size_le)

/-- Copying a type gives a copy of it and changes no meaning. -/
theorem copy_ensures (wellFormed : arena.WellFormed) (kept : List VarId) {ty : Ty}
    (covers : arena.Covers ty) :
    Ensures (copy kept ty) arena fun value after =>
      Preserves arena after ∧ IsCopy arena after kept ty value := by
  refine ensures_copy_iff.mpr (Ensures.mono (copy_lasting wellFormed kept covers) ?_)
  intro value after ⟨step, lasts⟩
  exact ⟨step.valid.preserves,
    (lasts after (.refl step.valid)).isCopy wellFormed covers step.valid⟩

end Copy

end ArrowCheck.Arena
