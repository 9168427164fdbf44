import TraitFactory.Evaluation
import TraitFactory.Proofs.UniformCopies

/-!
# What is evaluated alike

Attributes are computed, kept and read in the same way in alike worlds, as long as what is called on
the way does the same there.
-/

namespace TraitFactory

/-! ## 1. Calls -/

/-- Whether a value is no registry and nothing that compiles for one. -/
def Value.isDetached : Value → Bool
  | .registry _ | .resolver _ => false
  | _ => true

/-- Whether a call may construct an instance: it is handed nothing, or a single object. -/
def constructs : List Value → Bool
  | [] | [.object _] => true
  | _ => false

/-- **A host whose calls do the same in alike worlds.** No instance that they construct is a
registry. -/
def Host.Uniform [Scrutiny] (host : Host) : Prop :=
  ∀ f arguments, Action.UniformWith (fun v => constructs arguments → v.isDetached)
    (host.call f arguments)

theorem Host.uniform_exhausted [Scrutiny] : Host.exhausted.Uniform := fun _ _ => Action.uniformWith_fail _

namespace Action

variable [Scrutiny] {host : Host} {α : Type} {Q : α → Prop}

theorem uniform_call (hhost : host.Uniform) (f : Value) (arguments : List Value) :
    Uniform (host.call f arguments) := (hhost f arguments).uniform

theorem uniformWith_failInFactory (c : Cause) (factory : String) :
    UniformWith Q (failInFactory c factory) := uniformWith_throw _

theorem uniform_modifyEvaluation (e : EvaluationId) (f : Evaluation → Evaluation) :
    Uniform (modifyEvaluation e f) := uniform_modify fun _ _ => rfl

theorem uniform_newEvaluation (e : Evaluation) : Uniform (newEvaluation e) :=
  uniform_of_same fun _ _ => rfl

/-! ## 2. What an evaluation keeps -/

theorem uniform_computed? (e : Evaluation) (name : String) : Uniform (computed? e name) := by
  unfold computed?
  split
  · exact uniform_pure _
  · refine uniformWith_get (fun w m => by rw [World.entryValue?_withMargin]; rfl) fun w => ?_
    split
    · exact uniform_pure _
    · exact uniformWith_wrongType

theorem uniform_keepComputed (e : EvaluationId) (name : String) (v : Value) :
    Uniform (keepComputed e name v) := by
  refine uniform_bind (uniform_modifyEvaluation e _) fun _ => ?_
  refine uniformWith_get_bind fun w w' hw => ?_
  refine agree_bind (uniform_getEvaluation e w w' hw) fun evaluation w₁ w₁' _ _ _ h₁ => ?_
  have hentries : w'.insertEntry = w.insertEntry := by
    rw [hw.rest, World.insertEntry_withMargin]
  have hheap : w'.heap = w.heap := by rw [hw.rest]; rfl
  split
  · exact .ok trivial h₁
  · rename_i o _
    rw [hentries, hheap]
    split
    · rename_i entries _
      exact .ok trivial (hw.change (f := fun w => w.setObject o _) fun _ _ => rfl)
    · exact .error _ h₁
  · exact .error _ h₁

theorem uniform_declarationFor? (e : Evaluation) (name : String) :
    Uniform (declarationFor? e name) := by
  unfold declarationFor?
  split
  · exact uniform_pure _
  · refine uniform_bind (uniform_declared? e name) fun v => ?_
    split
    · exact uniform_pure _
    · exact uniform_pure _
    · refine uniformWith_get (fun _ _ => rfl) fun w => ?_
      split
      · exact uniform_pure _
      · exact uniformWith_noAttribute

theorem uniform_namesToResolve (e : Evaluation) : Uniform (namesToResolve e) := by
  unfold namesToResolve
  split
  · exact uniform_pure _
  · refine uniformWith_get (fun _ _ => rfl) fun w => ?_
    split
    · exact uniform_pure _
    · exact uniformWith_wrongType

theorem uniform_activeList (v : Value) : Uniform (activeList v) := by
  refine uniformWith_get (fun _ _ => rfl) fun w => ?_
  split
  · exact uniform_pure _
  · exact uniformWith_noAttribute

theorem uniform_activeNames (e : Evaluation) : Uniform (activeNames e) := by
  unfold activeNames
  split
  · exact uniform_pure _
  · refine uniform_bind (uniform_activeList _) fun active => ?_
    split
    · exact uniform_pure _
    · exact uniformWith_wrongType

theorem uniform_activate (e : EvaluationId) (name : String) : Uniform (activate e name) := by
  refine uniform_bind (uniform_getEvaluation e) fun evaluation => ?_
  split
  · exact uniform_modifyEvaluation e _
  · exact uniform_bind (uniform_activeList _) fun _ => uniform_setObject _ _

theorem uniform_deactivate (e : EvaluationId) : Uniform (deactivate e) := by
  refine uniform_bind (uniform_getEvaluation e) fun evaluation => ?_
  split
  · exact uniform_modifyEvaluation e _
  · refine uniform_bind (uniform_activeList _) fun active => ?_
    dsimp only
    split
    · exact uniform_bind (uniformWith_fail _) fun _ => uniform_setObject _ _
    · exact uniform_setObject _ _

/-! ## 3. Reading attributes -/

section Reading

variable (hhost : host.Uniform)

include hhost

theorem uniform_buildAssociation (e : EvaluationId) (d : Declaration) (a : Association) :
    Uniform (buildAssociation host e d a) := by
  refine uniform_bind (uniform_getEvaluation e) fun evaluation =>
    uniformWith_get (fun _ _ => rfl) fun w => ?_
  split
  · exact uniform_pure _
  · dsimp only
    have hbuild : ∀ strategy (factory : String), Uniform (do
        let overrides ← copy (← alloc (.dict (← entriesOf (some a.overrides))))
        let traits ← (Parts.lasting (.object d.valueObject) "traits" (a.traits.map .text)).2
        host.call evaluation.associate [.text factory, traits, overrides, strategy]) :=
      fun strategy factory => uniform_bind (uniform_entriesOf _) fun _ =>
        uniform_bind (uniform_alloc _) fun _ => uniform_bind (uniform_copy _) fun _ =>
        uniform_bind (uniform_lasting _ _ _) fun _ => uniform_call hhost _ _
    split
    · exact uniform_bind (uniformWith_fail _) fun _ => hbuild _ _
    · exact hbuild _ _

theorem uniform_evaluateComputed (e : EvaluationId) (fn : Value) :
    Uniform (evaluateComputed host e fn) := by
  refine uniformWith_get (fun w m => by rw [World.arity_withMargin]) fun w => ?_
  split
  · exact uniform_call hhost _ _
  · exact uniform_call hhost _ _

theorem uniform_compute (e : EvaluationId) (d : Declaration) : Uniform (compute host e d) := by
  unfold compute
  split
  · split
    · exact uniform_pure _
    · exact uniform_copy _
  · exact uniform_evaluateComputed hhost _ _
  · exact uniform_buildAssociation hhost _ _ _

/-- **An attribute is read alike.** -/
theorem uniform_read (e : EvaluationId) (name : String) : Uniform (read host e name) := by
  refine uniform_bind (uniform_getEvaluation e) fun evaluation =>
    uniform_bind (uniform_computed? _ _) fun value => ?_
  split
  · exact uniform_pure _
  · refine uniform_bind (uniform_activeNames _) fun active => ?_
    split
    · exact uniformWith_failInFactory _ _
    · refine uniform_bind (uniform_declarationFor? _ _) fun d => ?_
      split
      · exact uniformWith_failInFactory _ _
      · refine uniform_bind (uniform_activate _ _) fun _ =>
          uniform_bind (uniform_attempt (uniform_compute hhost _ _)) fun outcome =>
          uniform_bind (uniform_deactivate _) fun _ => ?_
        cases outcome with
        | ok v => exact uniform_bind (uniform_keepComputed _ _ _) fun _ => uniform_pure _
        | error e => exact uniformWith_throw _

theorem uniform_readAmong (e : EvaluationId) (count : Nat) (name : String) :
    Uniform (readAmong host e count name) := by
  refine uniform_bind (uniform_read hhost e name) fun v =>
    uniform_bind (uniform_getEvaluation e) fun evaluation =>
    uniformWith_get (fun _ _ => rfl) fun w => ?_
  split
  · split
    · exact uniform_pure _
    · exact uniformWith_fail _
  · exact uniform_pure _

/-- **All attributes are resolved alike.** -/
theorem uniform_resolve (e : EvaluationId) : Uniform (resolve host e) :=
  uniform_bind (uniform_getEvaluation e) fun _ => uniform_bind (uniform_namesToResolve _)
    fun _ => uniform_bind (uniform_mapM _ fun _ => uniform_readAmong hhost e _ _)
    fun _ => uniform_pure _

end Reading

end Action

end TraitFactory
