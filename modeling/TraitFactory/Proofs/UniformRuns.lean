import TraitFactory.Lifecycle
import TraitFactory.Proofs.UniformParts

/-!
# What is run alike

Plans are evaluated in the same way in alike worlds, from the overrides that are put on top of them
to the stages of their strategies. What is constructed on the way is no registry.
-/

namespace TraitFactory

namespace Action

variable [Scrutiny] {host : Host} {α : Type}

/-! ## 1. Overrides -/

theorem uniform_attributeValue (v : Value) (shared : Bool) : Uniform (attributeValue v shared) := by
  refine uniformWith_get (fun _ _ => rfl) fun w => ?_
  split
  · exact uniform_pure _
  · exact uniform_bind (uniform_place _) fun _ => uniform_pure _

theorem uniform_overrideDeclaration (entry : Value × Value) :
    Uniform (overrideDeclaration entry) :=
  uniform_bind (uniform_nameOr _ _) fun _ => uniform_bind (uniform_attributeValue _ _) fun _ =>
    uniform_newDeclaration _ _ _ _

theorem uniform_applyOverrides (p : PlanId) (entries : List (Value × Value))
    (constructor persistor : Option Value) :
    Uniform (applyOverrides p entries constructor persistor) := by
  unfold applyOverrides
  dsimp only
  split
  · exact uniform_pure _
  · refine uniform_bind (uniform_mapM _ uniform_overrideDeclaration) fun _ => ?_
    split
    · exact uniform_bind (uniform_getStored p) fun _ => uniform_bind (uniform_place _) fun _ =>
        uniform_newPlan _
    · exact uniformWith_fail _

/-! ## 2. Synthetic ids -/

theorem uniform_idAfter (id : Value) : Uniform (idAfter id) := by
  unfold idAfter
  split
  · exact uniform_newFloat _
  · exact uniform_pure _
  · exact uniform_pure _

theorem uniform_modifyEvaluator (ev : EvaluatorId) (f : Evaluator → Evaluator) :
    Uniform (modify fun w => w.modifyEvaluator ev f : Action PUnit) := uniform_modify fun _ _ => rfl

theorem uniform_drawId (ev : EvaluatorId) : Uniform (drawId ev) :=
  uniform_bind (uniform_getEvaluator ev) fun _ => uniform_bind (uniform_idAfter _) fun _ =>
    uniform_bind (uniform_modifyEvaluator ev _) fun _ => uniform_pure _

/-! ## 3. Constructing -/

/-- **What is constructed is an object.** -/
theorem uniformWith_construct (m : Model) (arguments : List Value)
    (keywords : List (String × Value)) :
    UniformWith (fun v => v.isDetached) (construct m arguments keywords) := by
  unfold construct
  split
  · exact uniformWith_wrongType
  · split
    · exact uniformWith_fail _
    · refine uniform_bind (uniform_mapM _ fun _ => uniform_bind (uniform_alloc _) fun _ =>
        uniform_pure _) fun _ => (uniformWith_alloc _).imp ?_
      rintro _ ⟨o, rfl⟩
      rfl

theorem uniform_readOf (snapshot : Value) : Uniform (readOf snapshot) := by
  refine uniform_bind (uniform_snapshot? snapshot) fun found => ?_
  split <;> exact uniform_pure _

theorem uniform_assign {v : Value} (h : v.isDetached) (read : Value) (entry : Value × Value) :
    Uniform (assign v read entry) := by
  refine uniform_bind (uniform_contains read entry.1) fun found => ?_
  split
  · exact uniform_pure _
  · split
    · exact uniform_setAttr h _ _
    · exact uniformWith_wrongType

theorem uniform_assignUnread {v : Value} (h : v.isDetached) (attributes read : Value) :
    Uniform (assignUnread v attributes read) :=
  uniform_bind (uniform_entriesOf _) fun entries => uniform_forM entries (uniform_assign h read)

section Running

variable (hhost : host.Uniform)

include hhost

theorem uniformWith_instanceOf (v : Value) :
    UniformWith (fun v => v.isDetached) (instanceOf host v) := by
  unfold instanceOf
  split
  · exact uniformWith_construct _ _ _
  · exact uniformWith_construct _ _ _
  · exact (hhost _ []).imp fun _ h => h rfl

theorem uniformWith_constructInstance (plan : Plan) (attributes : Value) :
    UniformWith (fun made => made.1.isDetached) (constructInstance host plan attributes) := by
  refine uniform_bind (uniform_alloc _) fun read => ?_
  split
  · exact uniformWith_bind (uniformWith_instanceOf hhost _) fun v hv => uniformWith_pure hv
  · rename_i fn _
    refine uniformWith_bind (uniformWith_alloc _) ?_
    -- What the constructor is handed is an object, so it constructs.
    rintro _ ⟨o, rfl⟩
    exact uniformWith_bind (uniformWith_noting _ ((hhost fn _).imp fun _ h => h rfl))
      fun made hmade => uniform_bind (uniform_readOf _) fun _ => uniformWith_pure hmade

/-- **An instance is constructed alike**, and is no registry. -/
theorem uniformWith_constructWith (plan : Plan) (attributes : Value) :
    UniformWith (fun v => v.isDetached) (constructWith host plan attributes) :=
  uniformWith_bind (uniformWith_constructInstance hhost plan attributes) fun _ hmade =>
    uniform_bind (uniform_assignUnread hmade _ _) fun _ => uniformWith_pure hmade

/-! ## 4. Stages -/

omit [Scrutiny] hhost in
theorem withholds_of_isDetached {v : Value} (h : v.isDetached) (name : String) :
    v.withholds name = false := by
  cases v <;> first | rfl | cases h

theorem uniform_persist (plan : Plan) {v : Value} (h : v.isDetached) :
    Uniform (persist host plan v) := by
  unfold persist
  split
  · exact uniform_bind (uniformWith_noting _ (uniform_call hhost _ _)) fun _ => uniform_pure _
  · refine uniform_bind (uniform_getAttrOr hhost (withholds_of_isDetached h _) _) fun save => ?_
    have hcall : Uniform (do let _ ← host.call save []) :=
      uniform_bind (uniform_call hhost _ _) fun _ => uniform_pure _
    split
    · exact uniformWith_get (fun w m => by rw [World.typeName_withMargin]) fun _ =>
        uniform_bind (uniformWith_failInFactory _ _) fun _ => hcall
    · exact hcall

theorem uniform_disable {v : Value} (h : v.isDetached) (method : String) :
    Uniform (disable host v method) := by
  refine uniform_bind (uniform_hasAttr hhost (withholds_of_isDetached h _)) fun has => ?_
  cases has with
  | false => exact uniform_pure _
  | true =>
    exact uniformWith_get (fun w m => by rw [World.typeName_withMargin]) fun _ =>
      uniform_bind (uniform_newFunction _) fun _ => uniform_setAttr h _ _

theorem uniform_stub (ev : EvaluatorId) {v : Value} (h : v.isDetached) (attributes : Value) :
    Uniform (stub host ev v attributes) := by
  refine uniform_bind (uniform_contains _ _) fun has => ?_
  have hdisable : Uniform (persistenceMethods.forM (disable host v)) :=
    uniform_forM _ (uniform_disable hhost h)
  cases has with
  | true => exact hdisable
  | false =>
    exact uniform_bind (uniform_drawId ev) fun _ => uniform_bind (uniform_setAttr h _ _) fun _ =>
      hdisable

theorem uniform_invoke (fn v context : Value) : Uniform (invoke host fn v context) := by
  refine uniformWith_get (fun w m => by rw [World.arity_withMargin]) fun w => ?_
  split <;> exact uniform_call hhost _ _

theorem uniform_fire (plan : Plan) (event : Event) (v context : Value) :
    Uniform (fire host plan event v context) :=
  uniform_forM _ fun _ => uniform_bind (uniformWith_noting _ (uniform_invoke hhost _ _ _))
    fun _ => uniform_pure _

theorem uniform_perform (e : EvaluationId) (ev : EvaluatorId) (plan : Plan) (attributes : Value)
    {v : Value} (h : v.isDetached) (stage : Stage) :
    Uniform (perform host e ev plan attributes v stage) := by
  cases stage with
  | stub => exact uniform_stub hhost ev h attributes
  | fire event => exact uniform_fire hhost _ _ _ _
  | persist => exact uniform_persist hhost plan h

/-! ## 5. Evaluations -/

omit hhost in
theorem uniform_strategyOf (v : Value) : Uniform (strategyOf v) := by
  unfold strategyOf
  split
  · exact uniform_pure _
  · exact uniform_bind (uniform_written _ _) fun _ => uniformWith_fail _

theorem uniform_followsParent (settings : Value) : Uniform (followsParent host settings) := by
  unfold followsParent
  split
  · exact uniform_bind (uniform_getSettings _) fun _ => uniform_pure _
  · exact uniform_getAttr hhost (by cases settings <;> rfl)

theorem uniform_beginEvaluation (ev : EvaluatorId) (p : PlanId) (strategy : Strategy) :
    Uniform (beginEvaluation host ev p strategy) :=
  uniform_bind (uniform_getEvaluator ev) fun _ => uniform_bind (uniform_getPlan p) fun _ =>
    uniform_bind (uniform_followsParent hhost _) fun _ => uniform_newEvaluation _

theorem uniform_runPlan (ev : EvaluatorId) (p : PlanId) (strategy : Strategy) :
    Uniform (runPlan host ev p strategy) := by
  refine uniform_bind (uniform_getPlan p) fun plan =>
    uniform_bind (uniform_beginEvaluation hhost ev p strategy) fun e =>
    uniform_bind (uniform_log _ _ _) fun _ => uniform_bind (uniform_resolve hhost e) fun values =>
    uniform_bind (uniform_alloc _) fun attributes => ?_
  split
  · exact uniform_pure _
  · exact uniformWith_bind (uniformWith_constructWith hhost plan attributes) fun v hv =>
      uniform_bind (uniform_forM _ (uniform_perform hhost e ev plan attributes hv)) fun _ =>
      uniform_pure v

theorem uniform_overrideEntries (overrides : Value) : Uniform (overrideEntries host overrides) := by
  refine uniformWith_get (fun _ _ => rfl) fun w => ?_
  split
  · exact uniform_pure _
  · exact uniform_pure _
  · refine uniform_bind (uniform_getAttr hhost (by cases overrides <;> rfl)) fun items =>
      uniform_bind (uniform_call hhost _ _) fun listed =>
      uniformWith_bind (uniformWith_walk _) fun reads hreads => (uniformWith_mapM fun read hread =>
        uniform_bind (hreads read hread) fun v => uniform_bothParts v).uniform

/-- **A plan is evaluated alike.** -/
theorem uniform_evaluate (ev : EvaluatorId) (p : PlanId) (strategy overrides : Value)
    (constructor persistor : Option Value) :
    Uniform (evaluate host ev p strategy overrides constructor persistor) :=
  uniform_bind (uniform_strategyOf strategy) fun _ =>
    uniform_bind (uniform_overrideEntries hhost overrides) fun _ =>
    uniform_bind (uniform_applyOverrides _ _ _ _) fun _ => uniform_runPlan hhost ev _ _

end Running

end Action

end TraitFactory
