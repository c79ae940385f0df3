/-
This file proves that inference leaves the scopes as it found them. Arrow functions
open a scope, give it parameters and the constants of their body, and close it
again, also where something in them is refused. Whatever happens in between changes
the innermost frame only, so closing the scope brings back the frames as they were.
What a declaration changes is the binding of its own name.

Nothing is assumed of the session, not even that its variables exist.
-/

import ArrowCheck.Proofs.InferenceSteps

namespace ArrowCheck

namespace Scopes

/-- Scopes differ at most in what the innermost frame binds a name to. -/
structure AgreeBut (name : String) (before after : Scopes) : Prop where
  outer : after.outer = before.outer
  monomorphic : after.current.monomorphic = before.current.monomorphic
  bindings : ∀ other, other ≠ name →
    after.current.bindings.lookup other = before.current.bindings.lookup other

theorem agreeBut_bind (scopes : Scopes) (name : String) (ty : Ty) :
    scopes.AgreeBut name (scopes.bind name ty) where
  outer := rfl
  monomorphic := rfl
  bindings other different := by
    show List.lookup other ((name, ty) :: scopes.current.bindings) = _
    rw [List.lookup_cons, beq_eq_false_iff_ne.mpr different]

end Scopes

namespace Session

/-- What is composed of steps changes the scopes as the steps do. -/
theorem Composed.changes {Place : Option Span → Prop} {Change : Scopes → Scopes → Prop}
    {Result : Type} {action : SessionM Result} (composed : Composed Place Change action)
    (refl : ∀ scopes, Change scopes scopes)
    (trans : ∀ {first second third}, Change first second → Change second third →
      Change first third) (session : Session) :
    Ensures action session fun _ after => Change session.scopes after.scopes := by
  induction composed generalizing session with
  | pure _ | onArena _ | report _ _ _ => exact refl session.scopes
  | modifyScopes allowed => exact allowed session.scopes
  | @enclosed _ _ action _ inductionHypothesis =>
    -- The frames around the scope are as they were when it was opened, so closing it restores them.
    have inside := inductionHypothesis (fun _ => rfl) (fun first second => second.trans first)
      { session with scopes := session.scopes.push }
    have restored : (inScope action session).2.scopes = session.scopes := Scopes.pop_eq inside
    rw [Ensures, restored]
    exact refl session.scopes
  | inspect _ _ inductionHypothesis => exact inductionHypothesis session refl trans session
  | sequence _ _ first rest => exact trans (first refl trans session) (rest session refl trans _)

/-- What is composed of steps that change no scopes leaves them as they are. -/
theorem Composed.keepsScopes {Result : Type} {action : SessionM Result}
    (composed : Composed (fun _ => True) Eq action) (session : Session) :
    Ensures action session fun _ after => after.scopes = session.scopes :=
  (composed.changes Eq.refl Eq.trans session).symm

theorem inferExpr_keepsScopes (expr : Expr) (session : Session) :
    Ensures (inferExpr expr) session fun _ after => after.scopes = session.scopes :=
  Composed.keepsScopes (composed_inferExpr expr fun _ _ => trivial) session

theorem meetDeclared_keepsScopes (inferred : Ty) (declared : Option WrittenType)
    (site : WrittenType → Site) (session : Session) :
    Ensures (meetDeclared inferred declared site) session fun _ after =>
      after.scopes = session.scopes :=
  Composed.keepsScopes (composed_meetDeclared inferred fun _ _ => trivial) session

/-- A declaration binds its name to its type, after the expression and the declared type have left
the scopes as they were. -/
theorem inferStmt_const_scopes (name : String) (declared : Option WrittenType) (init : Expr)
    (info : Info) (session : Session) :
    Ensures (inferStmt (.const name declared init info)) session fun result after =>
      after.scopes = session.scopes.bind name result.2 := by
  refine Ensures.bind (inferExpr_keepsScopes init session) fun init' now kept => ?_
  refine Ensures.bind (meetDeclared_keepsScopes _ _ _ now) fun ty now' kept' => ?_
  refine Ensures.modify_bind (Ensures.pure ?_)
  show now'.scopes.bind name ty = session.scopes.bind name ty
  rw [kept', kept]

theorem inferStmt_return_keepsScopes (argument : Option Expr) (info : Info) (session : Session) :
    Ensures (inferStmt (.return argument info)) session fun _ after =>
      after.scopes = session.scopes := by
  cases argument with
  | none => exact Ensures.pure rfl
  | some argument =>
    exact Ensures.bind (inferExpr_keepsScopes argument session) fun _ _ kept => Ensures.pure kept

/-- Inferring an expression leaves all scopes as they were, whatever is refused in it. So does
inferring a statement, except that a declaration binds its name to its type in the innermost frame;
the frame keeps its other bindings and its monomorphic types. -/
theorem inference_keeps_frames (session : Session) :
    (∀ expr, Ensures (inferExpr expr) session fun _ after => after.scopes = session.scopes) ∧
      (∀ name declared init info,
        Ensures (inferStmt (.const name declared init info)) session fun result after =>
          after.scopes = session.scopes.bind name result.2 ∧
            session.scopes.AgreeBut name after.scopes) ∧
      (∀ argument info, Ensures (inferStmt (.return argument info)) session fun _ after =>
        after.scopes = session.scopes) ∧
      ∀ value, Ensures (inferStmt (.expr value)) session fun _ after =>
        after.scopes = session.scopes := by
  refine ⟨fun expr => inferExpr_keepsScopes expr session, fun name declared init info => ?_,
    fun argument info => inferStmt_return_keepsScopes argument info session, fun value => ?_⟩
  · refine (inferStmt_const_scopes name declared init info session).mono fun _ after bound => ?_
    refine ⟨bound, ?_⟩
    rw [bound]
    exact session.scopes.agreeBut_bind name _
  · exact Ensures.bind (inferExpr_keepsScopes value session) fun _ _ kept => Ensures.pure kept

end Session

end ArrowCheck
