/-
This file says which steps of inference can call a use of a name unbound. A
diagnostic is known by its message, from which the name can be read back. Only
the inference of a name reports such a fault: unification, operators, calls,
indices, written types and instances may report other faults, and leave the
scopes alone.

Nothing is assumed of the session here, not even that its arena is well formed.
-/

import Mathlib.Data.List.Basic
import Mathlib.Data.List.Perm.Basic
import ArrowCheck.Proofs.Ensures
import ArrowCheck.Proofs.Substitution
import ArrowCheck.Typing.Infer

namespace ArrowCheck

/-! ### Reading a name back from a message -/

namespace Text

/-- What stands between two texts at the beginning and at the end of a text. -/
def between? (opening closing text : String) : Option String := do
  let rest ← text.toList.dropPrefix? opening.toList
  let inner ← rest.dropSuffix? closing.toList
  pure (String.ofList inner)

/-- Two texts differ within a number of characters that both have. -/
def Diverges (first second : String) : Prop :=
  ∃ count, count ≤ first.toList.length ∧ count ≤ second.toList.length ∧
    first.toList.take count ≠ second.toList.take count

theorem between?_append (opening name closing : String) :
    between? opening closing (opening ++ name ++ closing) = some name := by
  have opened : (opening ++ name ++ closing).toList.dropPrefix? opening.toList =
      some (name.toList ++ closing.toList) := by
    rw [String.toList_append, String.toList_append, List.append_assoc]
    exact List.dropPrefix?_append_of_beq _ BEq.rfl
  have closed : (name.toList ++ closing.toList).dropSuffix? closing.toList = some name.toList :=
    List.dropSuffix?_eq_some_iff.mpr ⟨closing.toList, rfl, BEq.rfl⟩
  rw [between?, opened]
  simp [closed]

theorem Diverges.append {first second : String} (diverges : Diverges first second)
    (more : String) : Diverges first (second ++ more) := by
  obtain ⟨count, long, long', differ⟩ := diverges
  refine ⟨count, long, ?_, ?_⟩
  · rw [String.toList_append, List.length_append]
    omega
  · rw [String.toList_append, List.take_append_of_le_length long']
    exact differ

theorem Diverges.between?_eq_none {opening text : String} (diverges : Diverges opening text)
    (closing : String) : between? opening closing text = none := by
  obtain ⟨count, long, _, differ⟩ := diverges
  cases dropped : text.toList.dropPrefix? opening.toList with
  | none => simp [between?, dropped]
  | some rest =>
    obtain ⟨start, split, same⟩ := List.dropPrefix?_eq_some_iff.mp dropped
    rw [beq_iff_eq.mp same] at split
    rw [split, List.take_append_of_le_length long] at differ
    exact absurd rfl differ

end Text

/-- The use of a name at a place. -/
abbrev Use := String × Option Span

namespace Diagnostic

/-- The use of a name that inference calls unbound. -/
def unboundUse? (diagnostic : Diagnostic) : Option Use :=
  (Text.between? "unbound identifier `" "` reached type inference" diagnostic.message).map
    fun name => (name, diagnostic.span)

/-- The uses of names that inference calls unbound. -/
def unboundUses (diagnostics : List Diagnostic) : List Use :=
  diagnostics.filterMap unboundUse?

@[simp] theorem unboundUses_append (first second : List Diagnostic) :
    unboundUses (first ++ second) = unboundUses first ++ unboundUses second :=
  List.filterMap_append

end Diagnostic

open Diagnostic

namespace Session

variable {Result Other : Type} {before middle after session : Session} {uses uses' : List Use}

/-! ### What inference reports about uses -/

/-- What is reported calls some uses of names unbound, and no others. -/
def Reports (uses : List Use) (before after : Session) : Prop :=
  ∃ added, after.diagnostics = before.diagnostics ++ added ∧ (unboundUses added).Perm uses

/-- The scopes are left alone, and some uses of names are called unbound. -/
structure Misses (uses : List Use) (before after : Session) : Prop where
  scopes : after.scopes = before.scopes
  reports : before.Reports uses after

theorem Reports.refl (session : Session) : session.Reports [] session :=
  ⟨[], (List.append_nil _).symm, .nil⟩

theorem Reports.trans (first : before.Reports uses middle) (second : middle.Reports uses' after) :
    before.Reports (uses ++ uses') after := by
  obtain ⟨added, appended, same⟩ := first
  obtain ⟨added', appended', same'⟩ := second
  refine ⟨added ++ added', ?_, ?_⟩
  · rw [appended', appended, List.append_assoc]
  · rw [unboundUses_append]
    exact same.append same'

theorem Reports.perm (reports : before.Reports uses after) (same : uses.Perm uses') :
    before.Reports uses' after := by
  obtain ⟨added, appended, reported⟩ := reports
  exact ⟨added, appended, reported.trans same⟩

/-- A step after which nothing more is called unbound. -/
theorem Reports.then (first : before.Reports uses middle) (second : middle.Reports [] after) :
    before.Reports uses after := by
  have both := first.trans second
  rwa [List.append_nil] at both

theorem Misses.refl (session : Session) : session.Misses [] session :=
  ⟨rfl, .refl session⟩

theorem Misses.trans (first : before.Misses uses middle) (second : middle.Misses uses' after) :
    before.Misses (uses ++ uses') after :=
  ⟨second.scopes.trans first.scopes, first.reports.trans second.reports⟩

/-- A step and what comes after it, in the scopes that the step left alone. -/
theorem Misses.bind {action : SessionM Result} {next : Result → SessionM Other}
    (first : Ensures action session fun _ after => session.Misses uses after)
    (rest : ∀ value now, now.scopes = session.scopes →
      Ensures (next value) now fun _ after => now.Misses uses' after) :
    Ensures (action >>= next) session fun _ after => session.Misses (uses ++ uses') after := by
  refine Ensures.bind first fun value now misses => ?_
  exact (rest value now misses.scopes).mono fun _ _ misses' => misses.trans misses'

/-! ### Steps that do not look at names -/

/-- A computation that leaves the scopes alone and calls no use of a name unbound. -/
def Quiet (action : SessionM Result) : Prop :=
  ∀ session, Ensures action session fun _ after => session.Misses [] after

theorem quiet_pure (value : Result) : Quiet (pure value) :=
  fun session => Ensures.pure (.refl session)

theorem Quiet.bind {action : SessionM Result} {next : Result → SessionM Other}
    (first : Quiet action) (rest : ∀ value, Quiet (next value)) : Quiet (action >>= next) :=
  fun session => Misses.bind (first session) fun value now _ => rest value now

theorem quiet_get_bind {next : Session → SessionM Result} (rest : ∀ session, Quiet (next session)) :
    Quiet (get >>= next) :=
  fun session => Ensures.get_bind (rest session session)

theorem quiet_onArena (action : ArenaM Result) : Quiet (onArena action) :=
  fun session => ⟨rfl, .refl session⟩

/-- A step that does not look at names is followed by what comes after it. -/
theorem Quiet.then {action : SessionM Result} (quiet : Quiet action)
    {next : Result → SessionM Other}
    (rest : ∀ value now, now.scopes = session.scopes →
      Ensures (next value) now fun _ after => now.Misses uses after) :
    Ensures (action >>= next) session fun _ after => session.Misses uses after :=
  Misses.bind (quiet session) rest

/-- A step is followed by what does not look at names. -/
theorem Misses.bind_quiet {action : SessionM Result} {next : Result → SessionM Other}
    (first : Ensures action session fun _ after => session.Misses uses after)
    (rest : ∀ value, Quiet (next value)) :
    Ensures (action >>= next) session fun _ after => session.Misses uses after := by
  refine (Misses.bind first fun value now _ => rest value now).mono fun _ after misses => ?_
  rwa [List.append_nil] at misses

end Session

/-! #### Faults -/

/-- The demand at a site, if there is one, is in the words of the checker. -/
def Site.Worded (site : Site) : Prop :=
  ∀ text, site.demand ≠ some (.stated text)

theorem Fault.diverges {fault : Fault} (bound : ∀ name, fault ≠ .unbound name) :
    Text.Diverges "unbound identifier `" fault.message := by
  cases fault with
  | unbound name => exact absurd rfl (bound name)
  | concatenation => exact ⟨3, by decide⟩
  | earlyReturn => exact ⟨3, by decide⟩
  | operator _ => exact .append (.append ⟨3, by decide⟩ _) _
  | notFunction _ => exact .append (.append ⟨3, by decide⟩ _) _
  | argumentCount _ _ => exact .append (.append (.append ⟨3, by decide⟩ _) _) _
  | primitives _ _ => exact .append (.append (.append (.append ⟨3, by decide⟩ _) _) _) _
  | shapes _ _ => exact .append (.append (.append (.append ⟨3, by decide⟩ _) _) _) _
  | parameterCounts _ _ => exact .append (.append (.append (.append ⟨3, by decide⟩ _) _) _) _
  | infinite _ _ => exact .append (.append (.append (.append ⟨3, by decide⟩ _) _) _) _

theorem Demand.diverges {demand : Demand} (worded : ∀ text, demand ≠ .stated text) :
    Text.Diverges "unbound identifier `" demand.text := by
  cases demand with
  | stated text => exact absurd rfl (worded text)
  | argument _ => exact .append (.append ⟨3, by decide⟩ _) _
  | declaredType _ => exact .append (.append ⟨3, by decide⟩ _) _
  | boolCondition => exact ⟨3, by decide⟩
  | equalBranches => exact ⟨3, by decide⟩
  | declaredResult => exact ⟨3, by decide⟩
  | equalElements => exact ⟨3, by decide⟩
  | numberIndex => exact ⟨3, by decide⟩
  | arrayIndexed => exact ⟨3, by decide⟩

theorem Site.Worded.diverges {site : Site} (worded : site.Worded) {fault : Fault}
    (bound : ∀ name, fault ≠ .unbound name) :
    Text.Diverges "unbound identifier `" (site.message fault) := by
  obtain ⟨span, demand⟩ := site
  cases demand with
  | none => exact Fault.diverges bound
  | some demand =>
    exact .append (.append (Demand.diverges fun text same => worded text (congrArg some same)) _) _

namespace Session

theorem addDiagnostic_misses (kind : Fault.Kind) (span : Option Span) {message : String}
    (diverges : Text.Diverges "unbound identifier `" message) (session : Session) :
    session.Misses [] (addDiagnostic kind span message session) := by
  refine ⟨rfl, _, rfl, ?_⟩
  rw [unboundUses, List.filterMap_cons_none, List.filterMap_nil]
  rw [unboundUse?, diverges.between?_eq_none, Option.map_none]

theorem quiet_report {fault : Fault} (bound : ∀ name, fault ≠ .unbound name)
    (span : Option Span) : Quiet (report fault span) :=
  addDiagnostic_misses _ span (Fault.diverges bound)

theorem quiet_refuse {site : Site} (worded : site.Worded) {fault : Fault}
    (bound : ∀ name, fault ≠ .unbound name) : Quiet (refuse site fault) :=
  Quiet.bind (addDiagnostic_misses _ site.span (worded.diverges bound)) fun _ => quiet_pure false

theorem report_unbound_misses (name : String) (span : Option Span) (session : Session) :
    Ensures (report (.unbound name) span) session fun _ after =>
      session.Misses [(name, span)] after := by
  refine ⟨rfl, _, rfl, ?_⟩
  have read : Text.between? "unbound identifier `" "` reached type inference"
      (Fault.unbound name).message = some name := Text.between?_append _ name _
  rw [unboundUses, List.filterMap_cons_some, List.filterMap_nil]
  rw [unboundUse?, read, Option.map_some]

/-! #### Unification -/

theorem quiet_bindVar {site : Site} (worded : site.Worded) (id : VarId) (ty : Ty) :
    Quiet (bindVar site id ty) := by
  refine (quiet_onArena _).bind fun occurs => ?_
  cases occurs with
  | true => exact (quiet_onArena _).bind fun shown => quiet_refuse worded (by simp)
  | false => exact (quiet_onArena _).bind fun _ => quiet_pure true

theorem quiet_shapes {site : Site} (worded : site.Worded) (first second : Ty) :
    Quiet (do
      let first ← resolve first
      let second ← resolve second
      refuse site (.shapes first second)) :=
  (quiet_onArena _).bind fun _ => (quiet_onArena _).bind fun _ => quiet_refuse worded (by simp)

section Parts

variable {meet : Ty → Ty → SessionM Bool} {site : Site}

theorem quiet_unifyAllParts {firsts : List Ty}
    (each : ∀ first ∈ firsts, ∀ second, Quiet (unifyParts meet site first second))
    (seconds : List Ty) : Quiet (unifyAllParts meet site firsts seconds) := by
  induction firsts generalizing seconds with
  | nil => exact quiet_pure true
  | cons first firsts inductionHypothesis =>
    obtain ⟨head, tail⟩ := List.forall_mem_cons.mp each
    cases seconds with
    | nil => exact quiet_pure true
    | cons second seconds =>
      refine (head second).bind fun _ => ?_
      exact (inductionHypothesis tail seconds).bind fun _ => quiet_pure _

/-- Two types are made equal part by part without a look at names, if variables are met so. -/
theorem quiet_unifyParts (worded : site.Worded)
    (quiet : ∀ first second, Quiet (meet first second)) (first second : Ty) :
    Quiet (unifyParts meet site first second) := by
  induction first generalizing second with
  | var id => exact quiet (.var id) second
  | prim primitive =>
    cases second with
    | var id => exact quiet _ _
    | prim primitive' =>
      rw [unifyParts]
      split_ifs
      · exact quiet_pure true
      · exact quiet_refuse worded (by simp)
    | fn _ _ | array _ => exact quiet_shapes worded _ _
  | fn params result paramsQuiet resultQuiet =>
    cases second with
    | var id => exact quiet _ _
    | prim _ | array _ => exact quiet_shapes worded _ _
    | fn params' result' =>
      rw [unifyParts]
      split_ifs
      · exact quiet_pure true
      · exact quiet_refuse worded (by simp)
      · refine (quiet_unifyAllParts paramsQuiet params').bind fun _ => ?_
        exact (resultQuiet result').bind fun _ => quiet_pure _
  | array element elementQuiet =>
    cases second with
    | var id => exact quiet _ _
    | prim _ | fn _ _ => exact quiet_shapes worded _ _
    | array element' =>
      rw [unifyParts]
      split_ifs
      · exact quiet_pure true
      · exact elementQuiet element'

end Parts

theorem quiet_unifyWithin {site : Site} (worded : site.Worded) (hops : Nat) (first second : Ty) :
    Quiet (unifyWithin site hops first second) := by
  induction hops generalizing first second with
  | zero => exact (quiet_onArena _).bind fun _ => quiet_pure false
  | succ hops inductionHypothesis =>
    refine (quiet_onArena _).bind fun first => (quiet_onArena _).bind fun second => ?_
    split
    · split_ifs
      · exact quiet_pure true
      · exact quiet_bindVar worded _ _
    · exact quiet_bindVar worded _ _
    · exact quiet_bindVar worded _ _
    · exact quiet_unifyParts worded inductionHypothesis _ _

/-- Unification does not look at names. -/
theorem quiet_unify {site : Site} (worded : site.Worded) (first second : Ty) :
    Quiet (unify site first second) :=
  quiet_get_bind fun _ => quiet_unifyWithin worded _ first second

/-! #### Operators, written types and calls -/

theorem quiet_requireNumbers (left right : Ty) (span : Option Span) :
    Quiet (requireNumbers left right span) :=
  (quiet_unify (by simp [Site.Worded]) _ _).bind fun _ =>
    (quiet_unify (by simp [Site.Worded]) _ _).bind fun _ => quiet_pure _

theorem quiet_solveAdd (left right : Ty) (span : Option Span) :
    Quiet (solveAdd left right span) := by
  refine (quiet_onArena _).bind fun left' => (quiet_onArena _).bind fun right' => ?_
  split
  · exact quiet_pure _
  · exact (quiet_requireNumbers left right span).bind fun _ => quiet_pure _
  · exact (quiet_report (by simp) span).bind fun _ => quiet_pure _

theorem quiet_solveBinary (operator : Operator) (left right : Ty) (span : Option Span) :
    Quiet (solveBinary operator left right span) := by
  cases operator with
  | add => exact quiet_solveAdd left right span
  | sub | mul | div | greater | less | greaterEqual | lessEqual =>
    exact (quiet_requireNumbers left right span).bind fun _ => quiet_pure _
  | equal | unequal => exact (quiet_unify (by simp [Site.Worded]) _ _).bind fun _ => quiet_pure _
  | mod | strictEqual | strictUnequal | and | or =>
    exact (quiet_report (by simp) span).bind fun _ => quiet_onArena _

mutual

theorem quiet_ofWritten (written : WrittenType) : Quiet (ofWritten written) := by
  match written with
  | .named name span =>
    rw [ofWritten]
    split_ifs
    · exact quiet_pure _
    · exact quiet_pure _
    · exact quiet_pure _
    · exact quiet_pure _
    · exact quiet_onArena _
  | .array element span => exact (quiet_ofWritten element).bind fun _ => quiet_pure _
  | .function params result span =>
    exact (quiet_ofWrittenAll params).bind fun _ => (quiet_ofWritten result).bind fun _ =>
      quiet_pure _

theorem quiet_ofWrittenAll (written : List WrittenType) : Quiet (ofWrittenAll written) := by
  match written with
  | [] => exact quiet_pure _
  | head :: tail =>
    exact (quiet_ofWritten head).bind fun _ => (quiet_ofWrittenAll tail).bind fun _ => quiet_pure _

end

theorem quiet_meetDeclared (inferred : Ty) (declared : Option WrittenType)
    {site : WrittenType → Site} (worded : ∀ written, (site written).Worded) :
    Quiet (meetDeclared inferred declared site) := by
  cases declared with
  | none => exact quiet_pure _
  | some written =>
    exact (quiet_ofWritten written).bind fun _ =>
      (quiet_unify (worded written) _ _).bind fun _ => quiet_pure _

theorem quiet_unifyArguments (span : Option Span) (position : Nat)
    (arguments : List (Option Span × Ty)) (params : List Ty) :
    Quiet (unifyArguments span position arguments params) := by
  induction arguments generalizing position params with
  | nil => exact quiet_pure _
  | cons argument arguments inductionHypothesis =>
    cases params with
    | nil => exact quiet_pure _
    | cons param params =>
      exact (quiet_unify (by simp [Site.Worded]) _ _).bind fun _ => inductionHypothesis _ params

theorem quiet_solveCall (callee : Ty) (arguments : List (Option Span × Ty)) (span : Option Span) :
    Quiet (solveCall callee arguments span) := by
  cases callee with
  | var id =>
    exact (quiet_onArena _).bind fun _ =>
      (quiet_unify (by simp [Site.Worded]) _ _).bind fun _ => quiet_pure _
  | fn params result =>
    rw [solveCall]
    split_ifs
    · exact (quiet_unifyArguments span 1 arguments params).bind fun _ => quiet_pure _
    · exact (quiet_report (by simp) span).bind fun _ => quiet_pure _
  | prim _ | array _ =>
    exact (quiet_onArena _).bind fun _ => (quiet_report (by simp) span).bind fun _ =>
      quiet_onArena _

theorem quiet_solveIndex (object : Ty) {site : Site} (worded : site.Worded) :
    Quiet (solveIndex object site) := by
  refine (quiet_onArena _).bind fun head => ?_
  split
  · exact quiet_pure _
  · exact (quiet_onArena _).bind fun _ => (quiet_unify worded _ _).bind fun _ => quiet_pure _

theorem quiet_reportEarlyReturn (statement : Stmt) : Quiet (reportEarlyReturn statement) := by
  rw [reportEarlyReturn]
  split_ifs
  · exact quiet_report (by simp) _
  · exact quiet_pure _

/-! ### Names -/

theorem quiet_resolveAll (tys : List Ty) : Quiet (resolveAll tys) := by
  induction tys with
  | nil => exact quiet_pure _
  | cons head tail inductionHypothesis =>
    exact (quiet_onArena _).bind fun _ => inductionHypothesis.bind fun _ => quiet_pure _

theorem quiet_freshInstance (ty : Ty) : Quiet (freshInstance ty) :=
  (quiet_get_bind fun _ => (quiet_resolveAll _).bind fun _ => quiet_pure _).bind fun _ =>
    quiet_onArena _

end Session

end ArrowCheck
