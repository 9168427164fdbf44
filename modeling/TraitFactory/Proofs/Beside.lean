import TraitFactory.Compile
import TraitFactory.Overrides
import TraitFactory.Proofs.Arguments
import TraitFactory.Proofs.Upholding
import TraitFactory.Runner

/-!
# What is done beside evaluations

Compiling a plan, putting overrides on top of it and reading or setting the names of an instance
leave evaluation alone, as long as the instance is none of what evaluates itself.
-/

namespace TraitFactory

/-- **A frame within which a registry may compile**: its cache may change, and plans be stored. -/
class Frame.Caching (F : Frame) (r : RegistryId) : Prop where
  cache : ∀ w (f : PlanCache → PlanCache),
    F.rel w (w.modifyRegistry r fun reg => { reg with cache := f reg.cache })
  plan : ∀ w p, F.rel w { w with plans := w.plans.push p }

instance (r : RegistryId) : Frame.idle.Caching r where
  cache _ _ := ⟨rfl, rfl, rfl, rfl⟩
  plan _ _ := ⟨rfl, rfl, rfl, rfl⟩

namespace Action

variable {F : Frame}

/-! ## 1. Compilation -/

theorem keeps_sourceOf (r : RegistryId) : Keeps F (sourceOf r) := by
  refine keeps_bind (keeps_getRegistry r) fun reg => ?_
  split <;> first | exact keeps_pure _ | exact keeps_noAttribute

theorem keeps_resolverOf (r : RegistryId) : Keeps F (resolverOf r) := by
  refine keeps_bind (keeps_getRegistry r) fun reg => ?_
  split <;> first | exact keeps_pure _ | exact keeps_noAttribute

theorem keeps_requireCacheKey (c : PlanCache) (d : DefinitionId) :
    Keeps F (requireCacheKey c d) := by
  exact keeps_bind (keeps_getDefinition d) fun definition =>
    keeps_get_bind fun w => by split <;> exact F.refl w

theorem keeps_modifyCache (r : RegistryId) [F.Caching r] (f : PlanCache → PlanCache) :
    Keeps F (Parts.modifyCache r f) := keeps_modify fun w => Frame.Caching.cache w f

section Compiling

variable [F.Lenient]

theorem keeps_planEntries (c : PlanCache) : Keeps F (Parts.planEntries c) :=
  keeps_mapM _ fun _ => keeps_bind (keeps_alloc _) fun _ => keeps_bind (keeps_alloc _) fun _ =>
    keeps_pure _

theorem keeps_layerEntries (c : PlanCache) : Keeps F (Parts.layerEntries c) :=
  keeps_mapM _ fun _ => keeps_bind (keeps_alloc _) fun _ => keeps_pure _

theorem keeps_renewHanded {α : Type} [DecidableEq α] (handed : Option ObjectId)
    (shown : World → List (Value × Value) → α) (is : α) {entries : Action (List (Value × Value))}
    (h : Keeps F entries) : Keeps F (renewHanded handed shown is entries) := by
  refine keeps_bind keeps_get fun w => ?_
  split
  · split
    · exact keeps_bind h fun _ => keeps_setObject _ _
    · exact keeps_pure _
  · exact keeps_pure _

variable (r : RegistryId) [F.Caching r]

theorem keeps_updateCache (f : PlanCache → PlanCache) : Keeps F (updateCache r f) :=
  keeps_bind (keeps_getRegistry r) fun _ => keeps_bind keeps_get fun _ =>
    keeps_bind (keeps_modifyCache r _) fun _ =>
    keeps_bind (keeps_renewHanded _ _ _ (keeps_planEntries _)) fun _ =>
    keeps_renewHanded _ _ _ (keeps_layerEntries _)

omit [F.Lenient] in
theorem keeps_placeStatic [F.Roomy] (ds : Definitions) (levels : List DefinitionId)
    (c : PlanCache) : Keeps F (placeStatic ds levels c) := by
  induction levels generalizing c with
  | nil => exact keeps_pure _
  | cons level older ih =>
    unfold placeStatic
    dsimp only
    split
    · exact keeps_pure _
    · refine keeps_bind (ih c) fun above => ?_
      split
      · exact keeps_pure _
      · exact keeps_bind (keeps_mapM _ fun l => keeps_place _) fun _ => keeps_pure _
      · exact keeps_pure _

theorem keeps_compileAnew (global : Slot (Table DefinitionId)) (f : DefinitionId)
    (dynamic : List String) : Keeps F (compileAnew r global f dynamic) := by
  refine keeps_bind keeps_get fun w => keeps_bind (keeps_getRegistry r) fun reg => ?_
  have hrest : ∀ inherited (kept : List ObjectId) cache, Keeps F (do
      updateCache r fun _ => cache
      let plan ← liftExcept (Except.bind inherited (w.planOn global f dynamic))
      let added ← (plan.layers.drop kept.length).mapM fun l => place (.layer l)
      return (⟨plan, kept ++ added⟩ : StoredPlan)) := fun _ _ _ =>
    keeps_bind (keeps_updateCache r _) fun _ => keeps_bind (keeps_liftExcept _) fun _ =>
      keeps_bind (keeps_mapM _ fun l => keeps_place _) fun _ => keeps_pure _
  dsimp only
  split
  · exact keeps_bind (keeps_placeStatic _ _ _) fun _ => hrest _ _ _
  · exact keeps_bind (keeps_pure _) fun _ => hrest _ _ _

theorem keeps_compileBy (factory : Value) (traits : Option Value) :
    Keeps F (compileBy r factory traits) := by
  refine keeps_bind (keeps_sourceOf r) fun source =>
    keeps_bind (keeps_findFactoryValue _ _) fun found =>
    keeps_bind (keeps_elementsOf traits) fun refs =>
    keeps_bind (keeps_mapM _ fun ref => keeps_nameOr _ ref) fun dynamic =>
    keeps_bind (keeps_requireDefinition _) fun f => keeps_bind keeps_get fun w =>
    keeps_bind (keeps_getRegistry _) fun registry =>
    keeps_bind (keeps_updateCache r _) fun _ => keeps_bind (keeps_getRegistry r) fun reg =>
    keeps_bind (keeps_requireCacheKey _ _) fun _ => ?_
  split
  · exact keeps_bind (keeps_log _ _ _) fun _ => keeps_pure _
  · exact keeps_bind (keeps_compileAnew r _ _ _) fun _ => keeps_bind (keeps_log _ _ _) fun _ =>
      keeps_bind (fun w => Frame.Caching.plan r w _) fun _ => keeps_bind (keeps_updateCache r _) fun _ =>
      keeps_pure _

end Compiling

/-- **Compiling evaluates nothing.** -/
theorem idles_compile (r : RegistryId) (factory : Value) (traits : Option Value) :
    Idles (compile r factory traits) :=
  keeps_bind (keeps_resolverOf r) fun _ => keeps_compileBy _ _ _

/-! ## 2. Overrides -/

theorem idles_overrideDeclaration (entry : Value × Value) : Idles (overrideDeclaration entry) :=
  keeps_bind (keeps_nameOr _ _) fun _ => keeps_bind (keeps_attributeValue _ _) fun _ =>
    keeps_newDeclaration _ _ _ _

theorem idles_applyOverrides (p : PlanId) (entries : List (Value × Value))
    (constructor persistor : Option Value) :
    Idles (applyOverrides p entries constructor persistor) := by
  unfold applyOverrides
  dsimp only
  split
  · exact keeps_pure _
  · refine keeps_bind (keeps_mapM _ idles_overrideDeclaration) fun declarations => ?_
    split
    · exact keeps_bind (keeps_getStored p) fun _ => keeps_bind (keeps_place _) fun _ =>
        idles_newPlan _
    · exact keeps_fail _

theorem keeps_strategyOf (v : Value) : Keeps F (strategyOf v) := by
  unfold strategyOf
  split
  · exact keeps_pure _
  · exact keeps_bind (keeps_written _ _) fun _ => keeps_fail _

theorem idles_debugValues (logger : String) {message : Action String} (h : Idles message) :
    Idles (debugValues logger message) := by
  refine keeps_bind (keeps_attempt h) fun outcome => ?_
  cases outcome with
  | ok message => exact keeps_log _ _ _
  | error _ => exact keeps_pure _

end Action

/-! ## 3. Named parts of an instance -/

/-- Whether a value is none of what evaluates: no evaluator and no evaluation, and nothing that
these are set up by. -/
def Value.isExternal : Value → Bool
  | .runner _ | .evaluator _ | .settings _ | .context _ | .evaluation _ => false
  | _ => true

namespace Action

theorem idles_modifyRegistry (r : RegistryId) (f : Registry → Registry) :
    Idles (Parts.modifyRegistry r f) := idles_modify fun _ => ⟨rfl, rfl, rfl, rfl⟩

theorem idles_modifyDefinition (d : DefinitionId) (f : Definition → Definition) :
    Idles (Parts.modifyDefinition d f) := idles_modify fun _ => ⟨rfl, rfl, rfl, rfl⟩

theorem idles_handedOut {α : Type} (s : Slot α) {make : α → Action Value}
    {keep : Slot α → Action Unit} (hmake : ∀ x, Idles (make x)) (hkeep : ∀ s, Idles (keep s)) :
    Idles (Parts.handedOut s make keep) := by
  cases s with
  | given v => exact keeps_pure v
  | own x => exact keeps_bind (hmake x) fun v => keeps_bind (hkeep _) fun _ => keeps_pure v

theorem idles_cacheDict (handed : Option ObjectId) {entries : Action (List (Value × Value))}
    {keep : ObjectId → Action Unit} (h : Idles entries) (hkeep : ∀ o, Idles (keep o)) :
    Idles (Parts.cacheDict handed entries keep) := by
  cases handed with
  | some o => exact keeps_pure _
  | none =>
    exact keeps_bind h fun _ => keeps_bind (keeps_place _) fun o => keeps_bind (hkeep o) fun _ =>
      keeps_pure _

theorem idles_callbackDict (cs : List Callback) : Idles (Parts.callbackDict cs) :=
  keeps_bind (keeps_mapM _ fun _ => keeps_bind (keeps_alloc _) fun _ => keeps_pure _) fun _ =>
    keeps_alloc _

theorem idles_buildClass (d : DefinitionId) : Idles (Parts.buildClass d) := by
  refine keeps_bind keeps_get fun w => ?_
  dsimp only
  split
  · exact keeps_noAttribute
  · exact keeps_pure _

theorem idle_append {parts parts' : Parts} (h : Parts.Stay .idle parts) (h' : Parts.Stay .idle parts') :
    Parts.Stay .idle (parts ++ parts') := fun part hpart =>
  (List.mem_append.mp hpart).elim (h part) (h' part)

theorem idle_cons {name : String} {make : Action Value} {parts : Parts} (h : Idles make)
    (h' : Parts.Stay .idle parts) : Parts.Stay .idle ((name, make) :: parts) := by
  intro part hpart
  rcases List.mem_cons.mp hpart with rfl | hpart
  · exact h
  · exact h' part hpart

theorem idle_nil : Parts.Stay .idle [] := fun _ h => absurd h List.not_mem_nil

/-- Parts that are at hand. -/
theorem idle_map_given {α : Type} (xs : List α) (name : α → String) (value : α → Value) :
    Parts.Stay .idle (xs.map fun x => Parts.given (name x) (value x)) := by
  intro part hpart
  obtain ⟨x, _, rfl⟩ := List.mem_map.mp hpart
  exact keeps_pure _

theorem idle_ofDefinition (d : DefinitionId) (definition : Definition) :
    Parts.Stay .idle (Parts.ofDefinition d definition) := by
  refine idle_append ?_ ?_
  · exact idle_cons (keeps_pure _) <|
      idle_cons (idles_handedOut _ (fun _ => keeps_alloc _) fun _ => idles_modifyDefinition _ _) <|
      idle_cons (idles_handedOut _ (fun _ => keeps_alloc _) fun _ => idles_modifyDefinition _ _) <|
      idle_cons (keeps_pure _) <| idle_cons (keeps_pure _) <|
      idle_cons (idles_handedOut _ idles_callbackDict fun _ => idles_modifyDefinition _ _) <|
      idle_cons (keeps_pure _) <| idle_cons (keeps_pure _) idle_nil
  · cases definition.template with
    | none => exact idle_nil
    | some t =>
      exact idle_cons (keeps_pure _) <| idle_cons (keeps_pure _) <|
        idle_cons (idles_handedOut _ (fun _ => keeps_alloc _) fun _ => idles_modifyDefinition _ _) <|
        idle_cons (idles_buildClass d) idle_nil

theorem idle_ofRegistry (r : RegistryId) (reg : Registry) :
    Parts.Stay .idle (Parts.ofRegistry r reg) :=
  idle_cons (idles_handedOut _ (fun _ => keeps_alloc _) fun _ => idles_modifyRegistry _ _) <|
    idle_cons (idles_handedOut _ (fun _ => keeps_alloc _) fun _ => idles_modifyRegistry _ _) <|
    idle_cons (keeps_pure _) <| idle_cons (keeps_pure _) <| idle_cons (keeps_pure _) idle_nil

theorem idle_ofResolver (r : RegistryId) (reg : Registry) :
    Parts.Stay .idle (Parts.ofResolver r reg) :=
  idle_cons (keeps_pure _) <| idle_cons (keeps_pure _) <|
    idle_cons (idles_cacheDict _ (keeps_planEntries _) fun _ => idles_modifyRegistry _ _) <|
    idle_cons (idles_cacheDict _ (keeps_layerEntries _) fun _ => idles_modifyRegistry _ _) <|
    idle_cons (keeps_pure _) <| idle_cons (keeps_pure _) idle_nil

theorem idle_ofFunction (id : FunctionId) (f : Function) : Parts.Stay .idle (Parts.ofFunction id f) := by
  unfold Parts.ofFunction
  split
  · exact idle_cons (keeps_once _ _ (idles_newFunction _)) <| idle_cons (keeps_lasting _ _ _) <|
      idle_cons (keeps_once _ _ (keeps_alloc _)) idle_nil
  · exact idle_cons (keeps_pure _) idle_nil
  · exact idle_cons (keeps_pure _) <| idle_cons (keeps_pure _) idle_nil

theorem idle_ofModelItself (m : Model) : Parts.Stay .idle (Parts.ofModelItself m) :=
  idle_append (idle_append (idle_append
    (idle_cons (keeps_pure _) <| idle_cons (keeps_pure _) idle_nil)
    (idle_map_given _ _ _)) (idle_map_given _ _ _)) (idle_map_given _ _ _)

theorem idle_modelParts (w : World) (m : Model) : Parts.Stay .idle (modelParts w m) := by
  have hown : Parts.Stay .idle ((sharedExtras w m).map (fun f => Parts.given f.1 f.2)
      ++ Parts.ofModelItself m) := idle_append (idle_map_given _ _ _) (idle_ofModelItself m)
  refine idle_append hown (idle_cons ?_ idle_nil)
  refine keeps_bind ?_ fun _ => keeps_bind (keeps_alloc _) fun _ => keeps_pure _
  -- All of the parts are read, one after another.
  generalize (sharedExtras w m).map (fun f => Parts.given f.1 f.2) ++ Parts.ofModelItself m = own
    at hown
  induction own with
  | nil => exact keeps_pure []
  | cons part own ih =>
    rw [List.mapM_cons]
    exact keeps_bind (keeps_bind (hown part List.mem_cons_self) fun _ => keeps_pure _) fun _ =>
      keeps_bind (ih fun part hpart => hown part (List.mem_cons_of_mem _ hpart)) fun _ =>
      keeps_pure _

theorem idles_memberTable (first : Value) : Idles (memberTable first) :=
  keeps_once _ _ (keeps_alloc _)

theorem idle_memberTables (w : World) (first : Value) : Parts.Stay .idle (memberTables w first) :=
  idle_cons (idles_memberTable first) <| idle_cons (keeps_once _ _ (keeps_alloc _)) <|
    idle_cons (keeps_once _ _ (keeps_alloc _)) <| idle_cons (keeps_once _ _ (keeps_alloc _)) <|
    idle_cons (keeps_pure _) <| idle_cons (keeps_pure _) idle_nil

theorem idle_memberParts (w : World) (member : Value) : Parts.Stay .idle (memberParts w member) :=
  idle_append (idle_append (idle_append (idle_append
    (idle_cons (keeps_pure _) <| idle_cons (keeps_pure _) idle_nil)
    (idle_map_given _ _ _)) (idle_map_given _ _ _)) (idle_memberTables w _)) (idle_map_given _ _ _)

theorem idle_enumerationParts (w : World) (member : Value) :
    Parts.Stay .idle (enumerationParts w member) :=
  idle_append (idle_append (idle_map_given _ _ _)
    (idle_cons (keeps_pure _) <| idle_cons (keeps_pure _) <|
      idle_cons (keeps_bind (idles_memberTable member) fun _ => keeps_pure _) idle_nil))
    (idle_memberTables w _)

theorem idle_typeParts (type : String) : Parts.Stay .idle (typeParts type) := by
  refine idle_append (idle_append (idle_cons (keeps_pure _) <| idle_cons (keeps_pure _) idle_nil)
    ?_) ?_
  · split
    · exact idle_cons (keeps_pure _) <| idle_cons (keeps_once _ _ (keeps_alloc _)) <|
        idle_cons (keeps_once _ _ (keeps_alloc _)) <| idle_cons (keeps_pure _) idle_nil
    · exact idle_nil
  · split
    · exact idle_cons (keeps_pure _) idle_nil
    · exact idle_nil

theorem idle_methodParts (type name : String) : Parts.Stay .idle (methodParts type name) := by
  refine idle_append (idle_cons (keeps_pure _) <| idle_cons (keeps_pure _) idle_nil) ?_
  split <;> exact idle_cons (keeps_pure _) idle_nil

theorem idle_numberParts (v : Value) : Parts.Stay .idle (numberParts v) := by
  unfold numberParts
  split
  · exact idle_cons (keeps_pure _) <| idle_cons (keeps_newFloat _) idle_nil
  · exact idle_cons (keeps_pure _) <| idle_cons (keeps_pure _) <| idle_cons (keeps_pure _) <|
      idle_cons (keeps_pure _) idle_nil
  · exact idle_nil

theorem idle_objectParts (w : World) (o : ObjectId) (x : Object) :
    Parts.Stay .idle (objectParts w o x) := by
  cases x with
  | record m fields =>
    refine idle_append (idle_append (idle_append (idle_map_given _ _ _) ?_)
      (idle_cons (keeps_pure _) idle_nil)) (idle_map_given _ _ _)
    split
    · exact idle_nil
    · exact idle_cons (keeps_pure _) idle_nil
  | sealed label copyable fields => exact idle_map_given _ _ _
  | snapshot s =>
    exact idle_append (idle_append
      (idle_cons (keeps_pure _) <| idle_cons (keeps_pure _) <| idle_cons (keeps_pure _) idle_nil)
      (idle_map_given _ _ _)) (idle_cons (keeps_pure _) idle_nil)
  | attributes s => exact idle_cons (keeps_pure _) idle_nil
  | layer l => exact idle_cons (keeps_pure _) (stay_ofLayer _ l)
  | attr a => exact stay_ofObject (.object o) (.attr a) rfl
  | declaration d => exact stay_ofObject (.object o) (.declaration d) rfl
  | callback c => exact stay_ofObject (.object o) (.callback c) rfl
  | _ => exact idle_nil

/-- **What is none of what evaluates has parts that can be had without evaluating.** -/
theorem gives_partsOf {v : Value} (h : v.isExternal) : Gives (Parts.Stay .idle) (partsOf v) := by
  refine gives_bind fun w => ?_
  cases v with
  | symbol serial payload => exact gives_pure (idle_memberParts w _)
  | textSymbol serial s => exact gives_pure (idle_memberParts w _)
  | keyword k => exact gives_pure (idle_memberParts w _)
  | model m => exact gives_pure (idle_modelParts w m)
  | type name => exact gives_pure (idle_typeParts name)
  | enumeration member => exact gives_pure (idle_enumerationParts w member)
  | function f =>
    refine gives_pure ?_
    cases w.function? f with
    | none => exact idle_nil
    | some function => exact idle_ofFunction f function
  | method serial receiver name =>
    cases receiver with
    | type type => exact gives_pure (idle_methodParts type name)
    | _ => exact gives_pure (idle_cons (keeps_pure _) <| idle_cons (keeps_pure _) idle_nil)
  | object o =>
    refine gives_pure ?_
    cases w.heap.get? o with
    | none => exact idle_nil
    | some x => exact idle_objectParts w o x
  | builder b =>
    exact gives_bind fun _ => gives_pure <| idle_cons (keeps_pure _) <|
      idle_cons (keeps_pure _) idle_nil
  | definition d => exact gives_bind fun definition => gives_pure (idle_ofDefinition d definition)
  | plan p => exact gives_bind fun s => gives_pure (stay_ofPlan p s)
  | registry r => exact gives_bind fun reg => gives_pure (idle_ofRegistry r reg)
  | resolver r => exact gives_bind fun reg => gives_pure (idle_ofResolver r reg)
  | tableView serial aspect table =>
    have hpart : Idles (tablePart w table).2 := by
      unfold tablePart
      split <;> exact keeps_pure _
    exact gives_pure (idle_cons hpart idle_nil)
  | runner r => cases h
  | evaluator e => cases h
  | settings s => cases h
  | context e => cases h
  | evaluation e => cases h
  | _ => exact gives_pure (idle_numberParts _)

theorem keeps_partsOf (v : Value) : Keeps F (partsOf v) := by
  refine keeps_get_bind fun w => ?_
  cases v with
  | method serial receiver name => cases receiver <;> exact F.refl w
  | builder b => exact keeps_bind (keeps_getBuilder b) (fun _ => keeps_pure _) w
  | definition d => exact keeps_bind (keeps_getDefinition d) (fun _ => keeps_pure _) w
  | plan p => exact keeps_bind (keeps_getStored p) (fun _ => keeps_pure _) w
  | registry r => exact keeps_bind (keeps_getRegistry r) (fun _ => keeps_pure _) w
  | resolver r => exact keeps_bind (keeps_getRegistry r) (fun _ => keeps_pure _) w
  | runner r => exact keeps_bind (keeps_getRunner r) (fun _ => keeps_pure _) w
  | evaluator e => exact keeps_bind (keeps_getEvaluator e) (fun _ => keeps_pure _) w
  | settings s => exact keeps_bind (keeps_getSettings s) (fun _ => keeps_pure _) w
  | evaluation e => exact keeps_bind (keeps_getEvaluation e) (fun _ => keeps_pure _) w
  | _ => exact F.refl w

theorem idles_reading {parts : Parts} (h : Parts.Stay .idle parts) {name : String} {part : Action Value}
    (hpart : parts.lookup name = some part) : Idles part := by
  induction parts with
  | nil => cases hpart
  | cons first parts ih =>
    rw [List.lookup_cons] at hpart
    split at hpart
    · cases hpart
      exact h first List.mem_cons_self
    · exact ih (fun part hmem => h part (List.mem_cons_of_mem _ hmem)) hpart

/-- Reading a named part of what is no part of evaluation. -/
theorem idles_plainField {v : Value} (h : v.isExternal) {name : String} (hname : name ≠ "__dict__") :
    Idles (plainField v name) := by
  refine keeps_bind keeps_get fun w =>
    keeps_bind_of (keeps_partsOf v) (gives_partsOf h) fun parts hparts => ?_
  split
  · exact keeps_pure _
  · rename_i part _ hpart
    exact idles_reading hparts hpart
  · refine keeps_bind keeps_get fun w' => ?_
    split
    · exact keeps_pure _
    · split
      · exact keeps_newMethod v name
      · split
        · exact keeps_pure _
        · rw [if_neg (by simp [hname])]
          exact keeps_noAttribute

/-- **Reading a named part of an instance evaluates nothing.** -/
theorem idles_getAttr (host : Host) {v : Value} (h : v.isExternal) {name : String}
    (hdict : name ≠ "__dict__") (hname : name ≠ "name") : Idles (getAttr host v name) := by
  unfold getAttr
  split
  · cases h
  · rw [if_neg hname]
    exact idles_plainField h hdict
  · exact idles_plainField h hdict

end Action

/-! ## 4. Setting parts of an instance -/

/-- **A frame in which parts of a value may be set**: all may change but the heap and evaluation,
and of the heap the value itself. -/
structure Frame.Sets (F : Frame) (v : Value) : Prop where
  object : ∀ o, v = .object o → ∀ w x, F.rel w (w.setObject o x)
  rest : ∀ w w' : World, w'.heap = w.heap → w.Idle w' → F.rel w w'

theorem Frame.sets_idle (v : Value) : Frame.idle.Sets v where
  object _ _ _ _ := ⟨rfl, rfl, rfl, rfl⟩
  rest _ _ _ h := h

namespace Action

section Setting

variable {F : Frame} {v : Value} (hF : F.Sets v)

include hF

theorem keeps_setExtra (v' : Value) (name : String) (x : Value) : Keeps F (setExtra v' name x) :=
  fun w => hF.rest w _ rfl ⟨rfl, rfl, rfl, rfl⟩

theorem keeps_modifyRegistry (r : RegistryId) (f : Registry → Registry) :
    Keeps F (Parts.modifyRegistry r f) := fun w => hF.rest w _ rfl ⟨rfl, rfl, rfl, rfl⟩

theorem keeps_changeDefinition (d : DefinitionId) (f : Definition → Definition) :
    Keeps F (Parts.modifyDefinition d f) := fun w => hF.rest w _ rfl ⟨rfl, rfl, rfl, rfl⟩

theorem keeps_modifyBuilder (b : BuilderId) (f : Builder → Builder) :
    Keeps F (modify fun w => w.modifyBuilder b f : Action PUnit) :=
  fun w => hF.rest w _ rfl ⟨rfl, rfl, rfl, rfl⟩

theorem keeps_announce (parts : List View) : Keeps F (announce parts) :=
  fun w => hF.rest w _ rfl ⟨rfl, rfl, rfl, rfl⟩

theorem keeps_setOnFrozen (v' : Value) (name : String) (x : Value) :
    Keeps F (setOnFrozen v' name x) := by
  unfold setOnFrozen
  split
  · exact keeps_setExtra hF _ _ _
  · exact keeps_fail _

omit hF in
theorem keeps_fieldsOf (v : Value) : Keeps F (fieldsOf v) := by
  refine keeps_get_bind fun w => ?_
  split
  · split <;> exact F.refl w
  · exact F.refl w

section Objects

variable {o : ObjectId} (ho : v = .object o)

include ho

theorem keeps_setOwn (x : Object) : Keeps F (modify fun w => w.setObject o x : Action PUnit) :=
  fun w => hF.object o ho w x

theorem keeps_setFields (entries : List (Value × Value)) :
    Keeps F (setEntries (.fields o) entries) := by
  refine keeps_get_bind fun w => ?_
  dsimp only
  split
  · exact hF.object o ho w _
  · split
    · exact hF.object o ho w _
    · exact F.refl w
  · exact F.refl w

theorem keeps_setReserved (m : Model) (fields : Table Value) (name : String) (x : Value) :
    Keeps F (setReserved o m fields name x) := by
  unfold setReserved
  split
  · split
    · exact keeps_setOwn hF ho _
    · exact keeps_wrongType
  · exact keeps_wrongType
  · exact keeps_bind (keeps_fieldsOf _) fun _ => keeps_setOwn hF ho _
  · exact keeps_noAttribute

theorem keeps_setField (m : Model) (fields : Table Value) (name : String) (x : Value) :
    Keeps F (setField o m fields name x) := by
  have hrest : Keeps F (do
      if m.reserved.contains name then setReserved o m fields name x
      else if m.takes name then
        modify fun w => w.setObject o (.record m (fields.insert name x))
      else noAttribute) := by
    split
    · exact keeps_setReserved hF ho _ _ _ _
    · split
      · exact keeps_setOwn hF ho _
      · exact keeps_noAttribute
  unfold setField
  dsimp only
  by_cases hannounces : m.announces = true
  · rw [if_pos hannounces]
    exact keeps_bind keeps_get fun _ => keeps_bind (keeps_announce hF _) fun _ => hrest
  · rw [if_neg hannounces]
    exact hrest

theorem keeps_setOnObject (name : String) (x : Value) (object : Object) :
    Keeps F (setOnObject o name x object) := by
  unfold setOnObject
  split
  · exact keeps_setField hF ho _ _ _ _
  · split
    · exact keeps_wrongType
    · split
      · exact keeps_noAttribute
      · exact keeps_setOwn hF ho _
  · exact keeps_setOwn hF ho _
  · refine keeps_bind keeps_get fun w => ?_
    split
    · exact keeps_setFields hF ho _
    · exact keeps_setExtra hF _ _ _
  · exact keeps_setOnFrozen hF _ _ _
  · exact keeps_setOnFrozen hF _ _ _
  · exact keeps_setOnFrozen hF _ _ _
  · exact keeps_setOnFrozen hF _ _ _
  · exact keeps_noAttribute

end Objects

theorem keeps_setOnTemplate (d : DefinitionId) (name : String) (x : Value) :
    Keeps F (setOnTemplate d name x) := by
  unfold setOnTemplate
  dsimp only
  split
  · exact keeps_noAttribute
  · exact keeps_changeDefinition hF _ _
  · exact keeps_changeDefinition hF _ _
  · exact keeps_changeDefinition hF _ _
  · exact keeps_setExtra hF _ _ _

theorem keeps_setOnDefinition (d : DefinitionId) (name : String) (x : Value) :
    Keeps F (setOnDefinition d name x) := by
  have hgiven : Keeps F (givenName x) := by
    unfold givenName
    split
    · exact keeps_pure _
    · exact keeps_bind (keeps_written _ _) fun _ => keeps_pure _
  unfold setOnDefinition
  dsimp only
  split
  · exact keeps_noAttribute
  · exact keeps_changeDefinition hF _ _
  · exact keeps_changeDefinition hF _ _
  · exact keeps_changeDefinition hF _ _
  · exact keeps_changeDefinition hF _ _
  · exact keeps_changeDefinition hF _ _
  · exact keeps_bind hgiven fun _ => keeps_changeDefinition hF _ _
  · exact keeps_bind (keeps_written _ _) fun _ =>
      keeps_bind (keeps_changeDefinition hF _ _) fun _ => keeps_setExtra hF _ _ _
  · refine keeps_bind (keeps_getDefinition d) fun definition => ?_
    split
    · exact keeps_setOnTemplate hF _ _ _
    · exact keeps_setExtra hF _ _ _

theorem keeps_setOnRegistry (r : RegistryId) (name : String) (x : Value) :
    Keeps F (setOnRegistry r name x) := by
  unfold setOnRegistry
  dsimp only
  split
  · exact keeps_modifyRegistry hF _ _
  · exact keeps_modifyRegistry hF _ _
  · exact keeps_modifyRegistry hF _ _
  · exact keeps_modifyRegistry hF _ _
  · exact keeps_setExtra hF _ _ _

theorem keeps_setOnResolver (r : RegistryId) (name : String) (x : Value) :
    Keeps F (setOnResolver r name x) := by
  refine keeps_bind keeps_get fun w => ?_
  dsimp only
  split
  · exact keeps_modifyRegistry hF _ _
  · exact keeps_modifyRegistry hF _ _
  · exact keeps_modifyRegistry hF _ _
  · exact keeps_modifyRegistry hF _ _
  · exact keeps_modifyRegistry hF _ _
  · exact keeps_setExtra hF _ _ _

theorem keeps_setOnBuilder (b : BuilderId) (name : String) (x : Value) :
    Keeps F (setOnBuilder b name x) := by
  unfold setOnBuilder
  dsimp only
  split
  · exact keeps_noAttribute
  · exact keeps_modifyBuilder hF _ _
  · exact keeps_modifyBuilder hF _ _
  · exact keeps_setExtra hF _ _ _

theorem keeps_setOnCallable (v' : Value) (name : String) (x : Value) :
    Keeps F (setOnCallable v' name x) := by
  unfold setOnCallable
  split
  · refine keeps_bind keeps_get fun w => ?_
    dsimp only
    split
    · exact keeps_noAttribute
    · split
      · exact keeps_wrongType
      · exact keeps_setExtra hF _ _ _
  · split
    · exact keeps_wrongType
    · exact keeps_setExtra hF _ _ _
  · exact keeps_noAttribute

theorem keeps_setPart (h : v.isExternal) (name : String) (x : Value) :
    Keeps F (setPart v name x) := by
  have hmember : ∀ (v : Value) (c : Bool),
      Keeps F (if c then noAttribute else setExtra v name x) := by
    intro v c
    cases c with
    | true => exact keeps_noAttribute
    | false => exact keeps_setExtra hF _ _ _
  cases v with
  | object o =>
    refine keeps_bind keeps_get fun w => ?_
    split
    · exact keeps_setOnObject hF rfl _ _ _
    · exact keeps_noAttribute
  | symbol serial payload => exact hmember _ _
  | textSymbol serial s => exact hmember _ _
  | keyword k => exact hmember _ _
  | enumeration member => exact hmember _ _
  | function f => exact keeps_setOnCallable hF _ _ _
  | model m => exact keeps_setOnCallable hF _ _ _
  | builder b => exact keeps_setOnBuilder hF _ _ _
  | definition d => exact keeps_setOnDefinition hF _ _ _
  | plan p => exact keeps_setOnFrozen hF _ _ _
  | registry r => exact keeps_setOnRegistry hF _ _ _
  | resolver r => exact keeps_setOnResolver hF _ _ _
  | runner r => cases h
  | evaluator e => cases h
  | settings s => cases h
  | context e => cases h
  | evaluation e => cases h
  | type name => exact keeps_wrongType
  | _ => exact keeps_noAttribute

/-- **Setting a named part of an instance** changes nothing but it. -/
theorem keeps_setAttr (h : v.isExternal) (name : String) (x : Value) :
    Keeps F (setAttr v name x) := by
  refine keeps_bind keeps_get fun w => ?_
  split
  · exact keeps_setPart hF h _ _
  · split
    · exact keeps_pure _
    · exact keeps_wrongType
  · split
    · exact keeps_wrongType
    · exact keeps_setPart hF h _ _
  · exact keeps_setPart hF h _ _

end Setting

/-- **Setting a named part of an instance evaluates nothing.** -/
theorem idles_setAttr {v : Value} (h : v.isExternal) (name : String) (x : Value) :
    Idles (setAttr v name x) := keeps_setAttr (Frame.sets_idle v) h name x

end Action

end TraitFactory
