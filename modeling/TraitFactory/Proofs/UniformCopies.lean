import TraitFactory.Object.Copy
import TraitFactory.Proofs.Uniform
import TraitFactory.Proofs.Upholding

/-!
# What is copied alike

A copy goes through what a value refers to. Of a registry it goes through the definitions and stops
there, so it is the same copy in alike worlds.
-/

namespace TraitFactory

/-! ## 1. The parts of a copy -/

/-- Copies that are alike: they are under way in alike worlds, and as much has been begun. -/
structure Copying.Alike [Scrutiny] (s s' : Copying) : Prop where
  world : s.world.Alike s'.world
  copies : s'.copies = s.copies

namespace CopyM

variable [Scrutiny] {α β : Type}

/-- What comes of one part of a copy in alike worlds. -/
structure Agree (r r' : Except Failure α × Copying) : Prop where
  outcome : r'.1 = r.1
  state : r.2.Alike r'.2

/-- **A part of a copy that does the same in alike worlds.** -/
def Uniform (m : CopyM α) : Prop :=
  ∀ s s' : Copying, s.Alike s' → Agree (m.run.run s) (m.run.run s')

theorem uniform_pure (x : α) : Uniform (pure x : CopyM α) := fun _ _ h => ⟨rfl, h⟩

theorem uniform_throw (e : Failure) : Uniform (throw e : CopyM α) := fun _ _ h => ⟨rfl, h⟩

theorem uniform_fail (message : Option String) : Uniform (CopyM.fail message : CopyM α) :=
  uniform_throw _

theorem uniform_bind {m : CopyM α} {f : α → CopyM β} (hm : Uniform m)
    (hf : ∀ x, Uniform (f x)) : Uniform (m >>= f) := by
  intro s s' h
  have hm := hm s s' h
  simp only [ExceptT.run_bind, StateT.run_bind]
  rcases hx : m.run.run s with ⟨x, s₁⟩
  rcases hx' : m.run.run s' with ⟨x', s₁'⟩
  rw [hx, hx'] at hm
  obtain rfl : x' = x := hm.outcome
  cases x' with
  | error e => exact ⟨rfl, hm.state⟩
  | ok x => exact hf x s₁ s₁' hm.state

/-- What is read of the copy so far is the same, if it is not at the margin. -/
theorem uniform_get_bind {f : Copying → CopyM β}
    (hsame : ∀ s m, f { s with world := s.world.withMargin m } = f s)
    (hf : ∀ s, Uniform (f s)) : Uniform (get >>= f) := by
  intro s s' h
  have hs : s' = { s with
      world := s.world.withMargin ⟨s'.world.registries, s'.world.log⟩ } := by
    rw [← h.copies, ← h.world.rest]
  have hf' : f s' = f s := by
    rw [hs, hsame]
  show Agree ((f s).run.run s) ((f s').run.run s')
  rw [hf']
  exact hf s s s' h

theorem uniform_world_bind {f : World → CopyM β}
    (hsame : ∀ w m, f (w.withMargin m) = f w) (hf : ∀ w, Uniform (f w)) :
    Uniform (world >>= f) :=
  uniform_get_bind (f := fun s => f s.world) (fun s m => hsame s.world m) fun s => hf s.world

theorem uniform_remember (v copy : Value) : Uniform (remember v copy) := fun _ _ h =>
  ⟨rfl, h.world, congrArg (List.cons (v, copy)) h.copies⟩

theorem uniform_perform {a : Action α} (h : Action.Uniform a) : Uniform (perform a) := by
  intro s s' hs
  have ha := h s.world s'.world hs.world
  rw [run_perform, run_perform, ha.outcome]
  have hstate : Copying.Alike { s with world := (a.execute s.world).2 }
      { s' with world := (a.execute s'.world).2 } := ⟨ha.alike, hs.copies⟩
  cases (a.execute s.world).1 with
  | ok x => exact ⟨rfl, hstate⟩
  | error e => exact ⟨rfl, hstate⟩

theorem uniform_begin (v : Value) {a : Action Value} (h : Action.Uniform a) :
    Uniform (begin v a) :=
  uniform_bind (uniform_perform h) fun copy =>
    uniform_bind (uniform_remember v copy) fun _ => uniform_pure copy

theorem uniform_put (copy : Value) (x : Object) : Uniform (put copy x) := by
  unfold put
  split
  · exact uniform_perform (Action.uniform_setObject _ _)
  · exact uniform_pure _

theorem uniform_mapM {f : α → CopyM β} (xs : List α) (h : ∀ x, Uniform (f x)) :
    Uniform (xs.mapM f) := by
  induction xs with
  | nil => exact uniform_pure []
  | cons x xs ih =>
    rw [List.mapM_cons]
    exact uniform_bind (h x) fun y => uniform_bind ih fun ys => uniform_pure _

theorem uniform_forIn {f : α → PUnit → CopyM (ForInStep PUnit)} (xs : List α)
    (h : ∀ x, Uniform (f x ⟨⟩)) :
    Uniform (forIn xs PUnit.unit f >>= fun _ => pure PUnit.unit) := by
  refine uniform_bind ?_ fun _ => uniform_pure _
  induction xs with
  | nil => exact uniform_pure _
  | cons x xs ih =>
    rw [List.forIn_cons]
    refine uniform_bind (h x) fun step => ?_
    cases step with
    | done _ => exact uniform_pure _
    | yield _ => exact ih

/-- What is not there is not copied. -/
theorem uniform_map_getD {x : Option α} {f : α → CopyM β} {m : CopyM β}
    (hf : ∀ x, Uniform (f x)) (hm : Uniform m) : Uniform ((x.map f).getD m) := by
  cases x with
  | none => exact hm
  | some x => exact hf x

end CopyM

/-! ## 2. Copies of values -/

section Copying

open CopyM

variable [Scrutiny] {copy : Value → CopyM Value} (hcopy : ∀ v, CopyM.Uniform (copy v))

include hcopy

theorem uniform_copyEntries (es : List (String × Value)) : CopyM.Uniform (copyEntries copy es) :=
  uniform_mapM es fun _ => uniform_bind (hcopy _) fun _ => uniform_pure _

theorem uniform_copyTable (t : Table Value) : CopyM.Uniform (copyTable copy t) :=
  uniform_bind (uniform_copyEntries hcopy _) fun _ => uniform_pure _

theorem uniform_copyOptional (v : Option Value) : CopyM.Uniform (copyOptional copy v) := by
  cases v with
  | none => exact uniform_pure _
  | some v => exact uniform_bind (hcopy v) fun _ => uniform_pure _

theorem uniform_copyAttribute (a : AttributeValue) : CopyM.Uniform (copyAttribute copy a) := by
  cases a <;> exact uniform_bind (hcopy _) fun _ => uniform_pure _

theorem uniform_copyPlace (o : ObjectId) : CopyM.Uniform (copyPlace copy o) := by
  refine uniform_bind (hcopy _) fun v => ?_
  split <;> exact uniform_pure _

theorem uniform_copyDeclaration (d : Declaration) : CopyM.Uniform (copyDeclaration copy d) := by
  refine uniform_get_bind (fun _ _ => rfl) fun s =>
    uniform_bind (uniform_copyPlace hcopy _) fun o => ?_
  split <;> exact uniform_pure _

theorem uniform_copyCallback (c : Callback) : CopyM.Uniform (copyCallback copy c) := by
  refine uniform_get_bind (fun _ _ => rfl) fun s =>
    uniform_bind (uniform_copyPlace hcopy _) fun o => ?_
  split <;> exact uniform_pure _

theorem uniform_copyLayer (l : Layer) : CopyM.Uniform (copyLayer copy l) :=
  uniform_bind (uniform_mapM _ (uniform_copyDeclaration hcopy)) fun _ =>
    uniform_bind (uniform_copyOptional hcopy _) fun _ =>
    uniform_bind (uniform_copyOptional hcopy _) fun _ =>
    uniform_bind (uniform_mapM _ (uniform_copyCallback hcopy)) fun _ => uniform_pure _

theorem uniform_copyPlan (s : StoredPlan) : CopyM.Uniform (copyPlan copy s) :=
  uniform_bind (uniform_mapM _ (uniform_copyPlace hcopy)) fun _ =>
    uniform_get_bind (fun _ _ => rfl) fun _ =>
    uniform_bind (uniform_mapM _ (uniform_copyDeclaration hcopy)) fun _ =>
    uniform_bind (uniform_copyOptional hcopy _) fun _ =>
    uniform_bind (uniform_copyOptional hcopy _) fun _ =>
    uniform_bind (uniform_mapM _ (uniform_copyCallback hcopy)) fun _ =>
    uniform_bind (hcopy _) fun _ => uniform_pure _

omit hcopy in
/-- A copy that is made empty and filled afterwards. -/
theorem uniform_filled (v : Value) (x : Object) {α : Type} {parts : CopyM α} {f : α → Object}
    (h : CopyM.Uniform parts) : CopyM.Uniform (do
      let v' ← begin v (Action.alloc x)
      put v' (f (← parts))
      return v') :=
  uniform_bind (uniform_begin v (Action.uniform_alloc x)) fun v' =>
    uniform_bind h fun _ => uniform_bind (uniform_put v' _) fun _ => uniform_pure v'

theorem uniform_copyObject (v : Value) (x : Object) : CopyM.Uniform (copyObject copy v x) := by
  have hbegin : ∀ x, CopyM.Uniform (begin v (Action.alloc x)) := fun x =>
    uniform_begin v (Action.uniform_alloc x)
  cases x with
  | list items => exact uniform_filled v _ (uniform_mapM items hcopy)
  | dict entries =>
    exact uniform_filled v _ (uniform_mapM entries fun e =>
      uniform_bind (hcopy _) fun _ => uniform_bind (hcopy _) fun _ => uniform_pure _)
  | record m fields => exact uniform_filled v _ (uniform_copyTable hcopy fields)
  | tuple items =>
    refine uniform_bind (uniform_mapM items hcopy) fun items' =>
      uniform_get_bind (fun _ _ => rfl) fun s => ?_
    split
    · exact uniform_pure _
    · split
      · exact uniform_pure _
      · exact hbegin _
  | sealed label copyable fields =>
    cases copyable with
    | true => exact uniform_filled v _ (uniform_copyTable hcopy fields)
    | false => exact uniform_fail _
  | attr a => exact uniform_bind (uniform_copyAttribute hcopy a) fun _ => hbegin _
  | declaration d =>
    exact uniform_bind (uniform_copyPlace hcopy _) fun o =>
      uniform_get_bind (fun _ _ => rfl) fun s => uniform_begin v <|
      Action.uniform_bind (Action.uniform_newDeclaration _ _ _ _) fun _ => Action.uniform_pure _
  | callback c =>
    exact uniform_bind (hcopy _) fun fn => uniform_begin v <|
      Action.uniform_bind (Action.uniform_newCallback _ _ _) fun _ => Action.uniform_pure _
  | set members => exact uniform_filled v _ (uniform_mapM members hcopy)
  | attributes s => exact uniform_filled v _ (uniform_mapM _ (uniform_copyDeclaration hcopy))
  | layer l => exact uniform_bind (uniform_copyLayer hcopy l) fun _ => hbegin _
  | snapshot s =>
    exact uniform_bind (hbegin _) fun v' => uniform_bind (hcopy _) fun _ =>
      uniform_bind (hcopy _) fun _ => uniform_bind (hcopy _) fun _ =>
      uniform_bind (uniform_copyTable hcopy _) fun _ =>
      uniform_bind (uniform_put v' _) fun _ => uniform_pure v'
  | iteration i =>
    show CopyM.Uniform (if i.type = "generator" then CopyM.fail none else _)
    split
    · exact uniform_fail _
    · exact uniform_bind (hcopy _) fun _ => hbegin _

theorem uniform_copyExtras (v v' : Value) : CopyM.Uniform (copyExtras copy v v') := by
  refine uniform_world_bind (fun _ _ => rfl) fun w => uniform_forIn _ fun e => ?_
  exact uniform_bind (hcopy _) fun x =>
    uniform_bind (uniform_perform (Action.uniform_modify fun _ _ => rfl)) fun _ => uniform_pure _

theorem uniform_copyFunction (v : Value) (f : Function) :
    CopyM.Uniform (copyFunction copy v f) := by
  unfold copyFunction
  split
  · exact uniform_pure _
  · exact uniform_bind (uniform_begin v (Action.uniform_newFunction f)) fun v' =>
      uniform_bind (uniform_copyExtras hcopy v v') fun _ => uniform_pure v'
  · exact uniform_bind (hcopy _) fun _ => uniform_begin v (Action.uniform_newFunction _)

theorem uniform_copySlot {α : Type} {copyOwn : α → CopyM α}
    (hown : ∀ x, CopyM.Uniform (copyOwn x)) (s : Slot α) :
    CopyM.Uniform (copySlot copy copyOwn s) := by
  cases s with
  | own x => exact uniform_bind (hown x) fun _ => uniform_pure _
  | given v => exact uniform_bind (hcopy v) fun _ => uniform_pure _

theorem uniform_copyDefinitionTable (t : Table DefinitionId) :
    CopyM.Uniform (copyDefinitionTable copy t) := by
  refine uniform_bind (uniform_mapM _ fun e => uniform_bind (hcopy _) fun v => ?_)
    fun _ => uniform_pure _
  split <;> exact uniform_pure _

theorem uniform_copyDefinition (v : Value) (d : Definition) :
    CopyM.Uniform (copyDefinition copy v d) := by
  have hset : ∀ id f, CopyM.Uniform (perform (modify fun w => w.modifyDefinition id f)) :=
    fun id f => uniform_perform (Action.uniform_modify fun _ _ => rfl)
  refine uniform_bind (uniform_perform (Action.uniform_newDefinition d)) fun id =>
    uniform_bind (uniform_remember _ _) fun _ => ?_
  refine uniform_bind (uniform_copySlot hcopy (fun s =>
      uniform_bind (uniform_mapM _ (uniform_copyDeclaration hcopy)) fun _ => uniform_pure _) _)
    fun _ => uniform_bind (uniform_copySlot hcopy (fun _ => uniform_pure _) _) fun _ =>
    uniform_bind (uniform_copyOptional hcopy _) fun _ =>
    uniform_bind (uniform_copyOptional hcopy _) fun _ =>
    uniform_bind (uniform_copySlot hcopy (fun cs =>
      uniform_mapM cs (uniform_copyCallback hcopy)) _) fun _ =>
    uniform_bind (hset _ _) fun _ => ?_
  have hextras : CopyM.Uniform (do
      copyExtras copy v (.definition id)
      return Value.definition id) :=
    uniform_bind (uniform_copyExtras hcopy v _) fun _ => uniform_pure _
  split
  · exact hextras
  · exact uniform_bind (hcopy _) fun _ => uniform_bind (hcopy _) fun _ =>
      uniform_bind (uniform_copySlot hcopy (uniform_copyDefinitionTable hcopy) _) fun _ =>
      uniform_bind (hset _ _) fun _ => hextras

theorem uniform_visitTable (t : Slot (Table DefinitionId)) :
    CopyM.Uniform (visitTable copy t) := by
  unfold visitTable
  split
  · exact uniform_forIn _ fun d => uniform_bind (hcopy _) fun _ => uniform_pure _
  · exact uniform_bind (hcopy _) fun _ => uniform_pure _

omit [Scrutiny] hcopy in
theorem run_copyRegistry (r : RegistryId) (s : Copying) : (copyRegistry copy r).run.run s =
    (match s.world.registryAt? r with
      | none => CopyM.fail none
      | some registry => do
        visitTable copy registry.factories
        visitTable copy registry.traits
        CopyM.fail none : CopyM Value).run.run s := rfl

/-- Of a registry the definitions are gone through, which like ones have in common. -/
theorem uniform_copyRegistry (r : RegistryId) : CopyM.Uniform (copyRegistry copy r) := by
  intro s s' h
  rw [run_copyRegistry, run_copyRegistry]
  rcases h.world.registryAt? r with ⟨hreg, hreg'⟩ | ⟨reg, reg', hreg, hreg', hlike⟩
  · rw [hreg, hreg']
    exact uniform_fail none s s' h
  · rw [hreg, hreg']
    dsimp only
    rw [hlike.factories, hlike.traits]
    exact uniform_bind (uniform_visitTable hcopy _) (fun _ =>
      uniform_bind (uniform_visitTable hcopy _) fun _ => uniform_fail none) s s' h

theorem uniform_copyEvaluator (v : Value) (e : Evaluator) :
    CopyM.Uniform (copyEvaluator copy v e) :=
  uniform_world_bind (fun _ _ => rfl) fun _ =>
    uniform_bind (uniform_begin v (Action.uniform_map _ (Action.uniform_newEvaluator e))) fun v' =>
    uniform_bind (hcopy _) fun _ => uniform_bind (hcopy _) fun _ =>
    uniform_bind (uniform_perform (Action.uniform_modify fun _ _ => rfl)) fun _ =>
    uniform_bind (uniform_copyExtras hcopy v v') fun _ => uniform_pure v'

theorem uniform_copyRunner (v : Value) (r : Runner) : CopyM.Uniform (copyRunner copy v r) :=
  uniform_world_bind (fun _ _ => rfl) fun _ =>
    uniform_bind (uniform_begin v (Action.uniform_bind (Action.uniform_modify fun _ _ => rfl)
      fun _ => Action.uniform_pure _)) fun v' =>
    uniform_bind (hcopy _) fun _ => uniform_bind (hcopy _) fun _ =>
    uniform_bind (hcopy _) fun _ =>
    uniform_bind (uniform_perform (Action.uniform_modify fun _ _ => rfl)) fun _ =>
    uniform_bind (uniform_copyExtras hcopy v v') fun _ => uniform_pure v'

theorem uniform_copySettings (v : Value) (s : RunnerSettings) :
    CopyM.Uniform (copySettings copy v s) :=
  uniform_bind (uniform_begin v (Action.uniform_map _ (Action.uniform_newSettings s))) fun v' =>
    uniform_bind (uniform_copyExtras hcopy v v') fun _ => uniform_pure v'

theorem uniform_copyBuilder (v : Value) (b : Builder) : CopyM.Uniform (copyBuilder copy v b) :=
  uniform_world_bind (fun _ _ => rfl) fun _ =>
    uniform_bind (uniform_begin v (Action.uniform_newBuilder b)) fun v' =>
    uniform_bind (hcopy _) fun _ => uniform_bind (hcopy _) fun _ =>
    uniform_bind (uniform_perform (Action.uniform_modify fun _ _ => rfl)) fun _ =>
    uniform_bind (uniform_copyExtras hcopy v v') fun _ => uniform_pure v'

theorem uniform_copyEvaluation (v : Value) (e : EvaluationId) :
    CopyM.Uniform (copyEvaluation copy v e) := by
  refine uniform_world_bind (fun _ _ => rfl) fun w => ?_
  split
  · exact uniform_pure _
  · rename_i E _
    have hrest : ∀ (id' : EvaluationId) planId, CopyM.Uniform (do
        let plan := ((← world).plan? planId).getD E.plan
        let associate ← copy E.associate
        let declarations ← copyOptional copy E.declarations
        let values ← copySlot copy (copyTable copy) E.values
        let active ← copySlot copy (fun names => return names) E.active
        let extras ← copyTable copy E.extras
        perform (modify fun w => w.modifyEvaluation id' fun e =>
          { e with planId, plan, associate, declarations, values, active, extras })
        return (((← get).copies.lookup v).getD v)) := fun id' planId =>
      uniform_world_bind (fun _ _ => rfl) fun _ => uniform_bind (hcopy _) fun _ =>
        uniform_bind (uniform_copyOptional hcopy _) fun _ =>
        uniform_bind (uniform_copySlot hcopy (uniform_copyTable hcopy) _) fun _ =>
        uniform_bind (uniform_copySlot hcopy (fun _ => uniform_pure _) _) fun _ =>
        uniform_bind (uniform_copyTable hcopy _) fun _ =>
        uniform_bind (uniform_perform (Action.uniform_modify fun _ _ => rfl)) fun _ =>
        uniform_get_bind (fun _ _ => rfl) fun _ => uniform_pure _
    refine uniform_world_bind (fun _ _ => rfl) fun w₁ =>
      uniform_bind (uniform_perform (Action.uniform_modify fun _ _ => rfl)) fun _ =>
      uniform_bind (uniform_remember _ _) fun _ => uniform_bind (uniform_remember _ _) fun _ =>
      uniform_bind (hcopy _) fun p => ?_
    split
    · exact uniform_bind (uniform_pure _) (hrest _)
    · exact uniform_bind (uniform_pure _) (hrest _)

theorem uniform_copyAnew (v : Value) : CopyM.Uniform (copyAnew copy v) := by
  refine uniform_world_bind (fun _ _ => rfl) fun w => ?_
  have hsame : CopyM.Uniform (pure v : CopyM Value) := uniform_pure v
  split
  · exact uniform_map_getD (uniform_copyObject hcopy _) hsame
  · exact uniform_map_getD (uniform_copyFunction hcopy _) hsame
  · exact hsame
  · split
    · exact hsame
    · exact uniform_bind (hcopy _) fun _ => uniform_begin _ (Action.uniform_newMethod _ _)
  · exact uniform_filled _ _ (uniform_mapM _ fun e =>
      uniform_bind (hcopy _) fun _ => uniform_pure _)
  · split
    · exact uniform_fail _
    · exact uniform_bind (hcopy _) fun _ => uniform_begin _
        (Action.uniform_bind Action.uniform_newSerial fun _ => Action.uniform_pure _)
  · split
    · exact uniform_bind (uniform_copyPlan hcopy _) fun stored =>
        uniform_begin _ (Action.uniform_map _ (Action.uniform_newPlan stored))
    · exact uniform_pure _
  · exact uniform_map_getD (uniform_copyDefinition hcopy _) hsame
  · exact uniform_map_getD (uniform_copyBuilder hcopy _) hsame
  · exact uniform_copyRegistry hcopy _
  · exact uniform_copyRegistry hcopy _
  · exact uniform_map_getD (uniform_copyRunner hcopy _) hsame
  · exact uniform_map_getD (uniform_copyEvaluator hcopy _) hsame
  · exact uniform_map_getD (uniform_copySettings hcopy _) hsame
  · exact uniform_copyEvaluation hcopy _ _
  · exact uniform_copyEvaluation hcopy _ _
  · split
    · exact uniform_fail _
    · exact uniform_pure _
  · exact hsame

omit hcopy in
theorem uniform_copyValue (depth : Nat) (v : Value) : CopyM.Uniform (copyValue depth v) := by
  induction depth generalizing v with
  | zero => exact uniform_throw _
  | succ depth ih =>
    refine uniform_get_bind (fun _ _ => rfl) fun s => ?_
    split
    · exact uniform_pure _
    · exact uniform_copyAnew ih v

end Copying

/-- **A copy is the same copy** in alike worlds. -/
theorem Action.uniform_copy [Scrutiny] (v : Value) : Uniform (Action.copy v) := by
  intro w w' hw
  -- There are as many registries in both worlds, so copies go as deep.
  have hdepth : copyDepth w' = copyDepth w := by
    rw [hw.rest, copyDepth, copyDepth]
    show (let things := _ + w'.registries.size + _ + _ + _ + _ + _ + 2; things * things) = _
    rw [hw.size]
    rfl
  have hcopied : CopyM.Uniform (copyValue (copyDepth w) v) := uniform_copyValue _ v
  have h := hcopied ⟨w, []⟩ ⟨w', []⟩ ⟨hw, rfl⟩
  have hrun : ∀ w, (Action.copy v).execute w =
      (((copyValue (copyDepth w) v).run.run ⟨w, []⟩).1,
        ((copyValue (copyDepth w) v).run.run ⟨w, []⟩).2.world) := fun w => by
    rw [Action.copy, copying, execute_bind_ok (execute_get w)]
    rcases (copyValue (copyDepth w) v).run.run ⟨w, []⟩ with ⟨e | x, s⟩ <;> rfl
  rw [hrun, hrun, hdepth]
  exact agree_of h.outcome h.state.world

end TraitFactory
