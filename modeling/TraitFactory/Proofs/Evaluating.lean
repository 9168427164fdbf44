import TraitFactory.Evaluation
import TraitFactory.Object.Fields
import TraitFactory.Proofs.Execution

/-!
# How attributes are read

An evaluation keeps what it has computed and knows what it is computing. As long as it keeps both
itself, reading an attribute comes to one of four things: the value that is kept, a cycle where the
attribute is being computed, a failure where nothing declares it, or a computation, after which the
value is kept.
-/

namespace TraitFactory

/-! ## 1. Evaluations in a world -/

namespace World

/-- **Where an evaluation stands**: what it has computed and what it is computing. -/
def Stands (w : World) (e : EvaluationId) (evaluation : Evaluation) (values : Table Value)
    (active : List String) : Prop :=
  w.evaluation? e = some { evaluation with values := .own values, active := .own active }

/-- **A world in which there is more**: no object and no function has been changed. -/
structure Widened (w w' : World) : Prop where
  objects : ∀ o x, w.heap.get? o = some x → w'.heap.get? o = some x
  functions : ∀ f g, w.function? f = some g → w'.function? f = some g

variable {w w₁ w₂ : World} {e : EvaluationId}

theorem Widened.refl (w : World) : w.Widened w := ⟨fun _ _ h => h, fun _ _ h => h⟩

theorem Widened.trans (h : w.Widened w₁) (h' : w₁.Widened w₂) : w.Widened w₂ :=
  ⟨fun o x hx => h'.objects o x (h.objects o x hx),
    fun f g hg => h'.functions f g (h.functions f g hg)⟩

theorem widened_modifyEvaluation (w : World) (e : EvaluationId) (f : Evaluation → Evaluation) :
    w.Widened (w.modifyEvaluation e f) := ⟨fun _ _ h => h, fun _ _ h => h⟩

theorem evaluation?_modifyEvaluation {evaluation : Evaluation} (f : Evaluation → Evaluation)
    (h : w.evaluation? e = some evaluation) :
    (w.modifyEvaluation e f).evaluation? e = some (f evaluation) := by
  show (w.evaluations.modify e.index f)[e.index]? = _
  rw [Array.getElem?_modify, if_pos rfl]
  exact congrArg (Option.map f) h

end World

namespace Action

variable {w w₁ : World} {e : EvaluationId} {E : Evaluation} {t t' : Table Value}
  {active : List String} {name : String} {host : Host} {v : Value} {d : Declaration}

theorem execute_getEvaluation (h : w.evaluation? e = some E) :
    (getEvaluation e).execute w = (.ok E, w) := by
  rw [getEvaluation, execute_bind_ok (execute_get w), h]
  rfl

/-- A context is that of its own evaluation, unless another has been put in its place. -/
theorem execute_evaluationOf (h : w.evaluation? e = some E)
    (hown : E.extras.get? "_evaluation" = none) : (evaluationOf e).execute w = (.ok e, w) := by
  rw [evaluationOf, execute_bind_ok (execute_getEvaluation h), hown]
  rfl

/-! ## 2. What is being computed -/

/-- A world in which one more attribute is being computed. -/
def activated (w : World) (e : EvaluationId) (name : String) : World :=
  w.modifyEvaluation e fun e => { e with active := e.active.modify (· ++ [name]) }

/-- A world in which the attribute that was begun last is no longer being computed. -/
def deactivated (w : World) (e : EvaluationId) : World :=
  w.modifyEvaluation e fun e => { e with active := e.active.modify (·.dropLast) }

theorem execute_activate (h : w.Stands e E t active) :
    (activate e name).execute w = (.ok ⟨⟩, activated w e name) := by
  rw [activate, execute_bind_ok (execute_getEvaluation h)]
  rfl

theorem stands_activated (h : w.Stands e E t active) :
    (activated w e name).Stands e E t (active ++ [name]) := by
  rw [World.Stands, activated, World.evaluation?_modifyEvaluation _ h]
  rfl

theorem execute_deactivate (h : w.Stands e E t active) :
    (deactivate e).execute w = (.ok ⟨⟩, deactivated w e) := by
  rw [deactivate, execute_bind_ok (execute_getEvaluation h)]
  rfl

theorem stands_deactivated (h : w.Stands e E t (active ++ [name])) :
    (deactivated w e).Stands e E t active := by
  rw [World.Stands, deactivated, World.evaluation?_modifyEvaluation _ h]
  show some { E with values := .own t, active := .own (active ++ [name]).dropLast } = _
  rw [List.dropLast_concat]

/-- A world in which one more value is kept. -/
def withKept (w : World) (e : EvaluationId) (name : String) (v : Value) : World :=
  w.modifyEvaluation e (·.keep name v)

theorem stands_withKept (h : w.Stands e E t active) :
    (withKept w e name v).Stands e E (t.insert name v) active := by
  rw [World.Stands, withKept, World.evaluation?_modifyEvaluation _ h]
  rfl

theorem execute_keepComputed (h : w.Stands e E t active) :
    (keepComputed e name v).execute w = (.ok ⟨⟩, withKept w e name v) := by
  have hkept : (withKept w e name v).Stands e E (t.insert name v) active := stands_withKept h
  have hmodify : (modifyEvaluation e (·.keep name v)).execute w =
      (.ok ⟨⟩, withKept w e name v) := rfl
  rw [keepComputed, execute_bind_ok hmodify, execute_bind_ok (execute_get _),
    execute_bind_ok (execute_getEvaluation hkept)]
  rfl

/-! ## 3. The four ways of a read -/

theorem execute_declarationFor? (hE : E.declarations = none) (name : String) (w : World) :
    (declarationFor? E name).execute w = (.ok (E.plan.declaration? name), w) := by
  rw [declarationFor?, hE]
  rfl

/-- The value that is kept is read as it is. -/
theorem execute_read_kept (h : w.Stands e E t active) (hv : t.get? name = some v) :
    (read host e name).execute w = (.ok v, w) := by
  have hcomputed : (computed? { E with values := .own t, active := .own active } name).execute w =
      (.ok (some v), w) := by
    rw [← hv]
    rfl
  rw [read, execute_bind_ok (execute_getEvaluation h), execute_bind_ok hcomputed]
  rfl

/-- What a read comes to where no value is kept. -/
theorem execute_read_missing (h : w.Stands e E t active) (hv : t.get? name = none) :
    (read host e name).execute w =
      (if name ∈ active then
        failInFactory (.attributeCycle name (Evaluation.chain active name)) E.plan.factory
      else do
        match ← declarationFor? { E with values := .own t, active := .own active } name with
        | none => failInFactory (.undefinedAttribute name) E.plan.factory
        | some d =>
          activate e name
          let outcome ← attempt (compute host e d)
          deactivate e
          match outcome with
          | .ok v =>
            keepComputed e name v
            return v
          | .error failure =>
            throw (if failure.cause.isOwn then failure
              else failure.addNote (Evaluation.note { E with
                values := .own t, active := .own active } name d)) : Action Value).execute w := by
  have hcomputed : (computed? { E with values := .own t, active := .own active } name).execute w =
      (.ok none, w) := by
    rw [← hv]
    rfl
  have hactive : (activeNames { E with values := .own t, active := .own active }).execute w =
      (.ok active, w) := rfl
  rw [read, execute_bind_ok (execute_getEvaluation h), execute_bind_ok hcomputed]
  dsimp only
  exact (execute_bind_ok hactive).trans rfl

/-- **A read of what is being computed is a cycle.** -/
theorem execute_read_active (h : w.Stands e E t active) (hv : t.get? name = none)
    (hname : name ∈ active) :
    (read host e name).execute w = (.error (Failure.inFactory
      (.attributeCycle name (Evaluation.chain active name)) E.plan.factory), w) := by
  rw [execute_read_missing h hv, if_pos hname]
  rfl

/-- A read of what nothing declares fails. -/
theorem execute_read_undeclared (h : w.Stands e E t active) (hE : E.declarations = none)
    (hv : t.get? name = none) (hname : name ∉ active) (hd : E.plan.declaration? name = none) :
    (read host e name).execute w =
      (.error (Failure.inFactory (.undefinedAttribute name) E.plan.factory), w) := by
  have hdeclared := execute_declarationFor? (E := { E with
    values := .own t, active := .own active }) hE name w
  rw [execute_read_missing h hv, if_neg hname, execute_bind_ok hdeclared, hd]
  rfl

section Computing

variable (h : w.Stands e E t active) (hE : E.declarations = none) (hv : t.get? name = none)
  (hname : name ∉ active) (hd : E.plan.declaration? name = some d)

include h hE hv hname hd

/-- **A read that computes**: what comes of it is kept. -/
theorem execute_read_computed
    (hcompute : (compute host e d).execute (activated w e name) = (.ok v, w₁))
    (h₁ : w₁.Stands e E t' (active ++ [name])) :
    (read host e name).execute w = (.ok v, withKept (deactivated w₁ e) e name v) := by
  have hdeclared := execute_declarationFor? (E := { E with
    values := .own t, active := .own active }) hE name w
  have hattempt := execute_attempt (compute host e d) (activated w e name)
  rw [hcompute] at hattempt
  rw [execute_read_missing h hv, if_neg hname, execute_bind_ok hdeclared, hd]
  dsimp only
  rw [execute_bind_ok (execute_activate h), execute_bind_ok hattempt,
    execute_bind_ok (execute_deactivate h₁)]
  dsimp only
  rw [execute_bind_ok (execute_keepComputed (stands_deactivated h₁))]
  rfl

/-- A read whose computation fails, fails. -/
theorem execute_read_failed {failure : Failure}
    (hcompute : (compute host e d).execute (activated w e name) = (.error failure, w₁)) :
    ∃ failure' w', (read host e name).execute w = (.error failure', w') := by
  have hdeclared := execute_declarationFor? (E := { E with
    values := .own t, active := .own active }) hE name w
  have hattempt := execute_attempt (compute host e d) (activated w e name)
  rw [hcompute] at hattempt
  rw [execute_read_missing h hv, if_neg hname, execute_bind_ok hdeclared, hd]
  dsimp only
  rw [execute_bind_ok (execute_activate h), execute_bind_ok hattempt, execute_bind]
  rcases (deactivate e).execute w₁ with ⟨failure' | _, w₂⟩
  · exact ⟨failure', w₂, rfl⟩
  · exact ⟨_, w₂, rfl⟩

end Computing

end Action

end TraitFactory
