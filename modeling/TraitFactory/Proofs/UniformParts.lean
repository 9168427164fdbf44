import TraitFactory.Object.Fields
import TraitFactory.Proofs.UniformReads

/-!
# What is named alike

The named parts of a value are read in the same way in alike worlds, and set in the same way. The
parts of a registry and of what compiles for it are another matter: a registry tells its count, and
what compiles for it tells what it has cached.
-/

namespace TraitFactory

/-- Whether a registry, or what compiles for it, has a part of its own under a name. -/
def Value.withholds : Value → String → Bool
  | .registry _, name =>
    ["factories", "traits", "generation", "_lock", "resolver", "__dict__"].contains name
  | .resolver _, name =>
    ["registry", "cache_enabled", "_plans", "_static", "_generation", "_lock", "__dict__"].contains
      name
  | _, _ => false

/-- **Parts that are made alike** in alike worlds. -/
def Parts.Uniform [Scrutiny] (parts : Parts) : Prop := ∀ part ∈ parts, Action.Uniform part.2

namespace Parts

variable [Scrutiny] {ps qs : Parts}

theorem uniform_nil : Uniform [] := fun _ h => absurd h List.not_mem_nil

theorem uniform_cons {part : String × Action Value} (hpart : Action.Uniform part.2)
    (h : Uniform ps) : Uniform (part :: ps) := List.forall_mem_cons.mpr ⟨hpart, h⟩

theorem uniform_append (hps : Uniform ps) (hqs : Uniform qs) : Uniform (ps ++ qs) :=
  List.forall_mem_append.mpr ⟨hps, hqs⟩

theorem uniform_map {α : Type} (xs : List α) {f : α → String × Action Value}
    (h : ∀ x, Action.Uniform (f x).2) : Uniform (xs.map f) :=
  List.forall_mem_map.mpr fun x _ => h x

theorem uniform_given (name : String) (v : Value) : Action.Uniform (given name v).2 :=
  Action.uniform_pure v

/-- Parts that are at hand. -/
theorem uniform_givens {α : Type} (xs : List α) (name : α → String) (v : α → Value) :
    Uniform (xs.map fun x => given (name x) (v x)) := uniform_map xs fun _ => uniform_given _ _

/-- The part under a name is one of the parts. -/
theorem Uniform.lookup (h : Uniform ps) {name : String} {part : Action Value}
    (hpart : ps.lookup name = some part) : Action.Uniform part := by
  obtain ⟨_, _, hps, _⟩ := List.lookup_eq_some_iff.mp hpart
  exact h (name, part) (by simp [hps])

theorem uniform_handedOut {α : Type} (s : Slot α) {make : α → Action Value}
    {keep : Slot α → Action Unit} (hmake : ∀ x, Action.Uniform (make x))
    (hkeep : ∀ s, Action.Uniform (keep s)) : Action.Uniform (handedOut s make keep) := by
  cases s with
  | given v => exact Action.uniform_pure v
  | own x =>
    exact Action.uniform_bind (hmake x) fun v => Action.uniform_bind (hkeep _) fun _ =>
      Action.uniform_pure v

end Parts

namespace Action

variable [Scrutiny] {host : Host}

/-! ## 1. The parts of values -/

theorem uniform_modifyDefinition (d : DefinitionId) (f : Definition → Definition) :
    Uniform (Parts.modifyDefinition d f) := uniform_modify fun _ _ => rfl

/-- Parts that are read off a world, but not off its registries. -/
theorem uniformWith_partsIn {f : World → Parts}
    (hsame : ∀ w m, f (w.withMargin m) = f w) (h : ∀ w, Parts.Uniform (f w)) :
    UniformWith Parts.Uniform (get >>= fun w => pure (f w)) :=
  uniformWith_get (fun w m => by rw [hsame]) fun w => uniformWith_pure (h w)

theorem uniform_memberTables (w : World) (first : Value) :
    Parts.Uniform (memberTables w first) := by
  have hmade : ∀ v name x, Uniform (once v name (alloc x)) := fun _ _ _ =>
    uniform_once _ _ (uniform_alloc _)
  simp only [memberTables, Parts.Uniform, List.forall_mem_cons]
  exact ⟨hmade _ _ _, hmade _ _ _, hmade _ _ _, hmade _ _ _, Parts.uniform_given _ _,
    Parts.uniform_given _ _, Parts.uniform_nil⟩

theorem uniform_memberParts (w : World) (v : Value) : Parts.Uniform (memberParts w v) := by
  refine Parts.uniform_append (Parts.uniform_append (Parts.uniform_append (Parts.uniform_append
    ?_ (Parts.uniform_givens _ _ _)) (Parts.uniform_givens _ _ _)) (uniform_memberTables _ _))
    (Parts.uniform_givens _ _ _)
  exact Parts.uniform_cons (Parts.uniform_given _ _)
    (Parts.uniform_cons (Parts.uniform_given _ _) Parts.uniform_nil)

omit [Scrutiny] in
theorem memberTables_withMargin (w : World) (m : Margin) (first : Value) :
    memberTables (w.withMargin m) first = memberTables w first := by
  simp only [memberTables, World.isKey_withMargin]

theorem uniform_enumerationParts (w : World) (member : Value) :
    Parts.Uniform (enumerationParts w member) := by
  refine Parts.uniform_append (Parts.uniform_append (Parts.uniform_givens _ _ _) ?_)
    (uniform_memberTables _ _)
  refine Parts.uniform_cons (Parts.uniform_given _ _)
    (Parts.uniform_cons (Parts.uniform_given _ _) (Parts.uniform_cons ?_ Parts.uniform_nil))
  exact uniform_bind (uniform_once _ _ (uniform_alloc _)) fun _ => uniform_pure _

theorem uniform_modelParts (w : World) (m : Model) : Parts.Uniform (modelParts w m) := by
  have hown : Parts.Uniform ((sharedExtras w m).map (fun f => Parts.given f.1 f.2)
      ++ Parts.ofModelItself m) := by
    refine Parts.uniform_append (Parts.uniform_givens _ _ _) (Parts.uniform_append
      (Parts.uniform_append (Parts.uniform_append ?_ (Parts.uniform_givens _ _ _))
        (Parts.uniform_givens _ _ _)) (Parts.uniform_givens _ _ _))
    exact Parts.uniform_cons (Parts.uniform_given _ _)
      (Parts.uniform_cons (Parts.uniform_given _ _) Parts.uniform_nil)
  refine Parts.uniform_append hown (Parts.uniform_cons ?_ Parts.uniform_nil)
  have hread : ∀ p ∈ (sharedExtras w m).map (fun f => Parts.given f.1 f.2)
      ++ Parts.ofModelItself m, Uniform (do return (Value.text p.1, ← p.2)) := fun p hp =>
    uniform_bind (hown p hp) fun _ => uniform_pure _
  exact uniform_bind (uniformWith_mapM hread).uniform fun _ =>
    uniform_bind (uniform_alloc _) fun _ => uniform_pure _

theorem uniform_typeParts (type : String) : Parts.Uniform (typeParts type) := by
  have hmade : ∀ v name x, Uniform (once v name (alloc x)) := fun _ _ _ =>
    uniform_once _ _ (uniform_alloc _)
  refine Parts.uniform_append (Parts.uniform_append ?_ ?_) ?_
  · exact Parts.uniform_cons (Parts.uniform_given _ _)
      (Parts.uniform_cons (Parts.uniform_given _ _) Parts.uniform_nil)
  · split
    · exact Parts.uniform_cons (Parts.uniform_given _ _) (Parts.uniform_cons (hmade _ _ _)
        (Parts.uniform_cons (hmade _ _ _) (Parts.uniform_cons (Parts.uniform_given _ _)
          Parts.uniform_nil)))
    · exact Parts.uniform_nil
  · split
    · exact Parts.uniform_cons (Parts.uniform_given _ _) Parts.uniform_nil
    · exact Parts.uniform_nil

theorem uniform_ofFunction (f : FunctionId) (g : Function) :
    Parts.Uniform (Parts.ofFunction f g) := by
  unfold Parts.ofFunction
  split
  · exact Parts.uniform_cons (uniform_once _ _ (uniform_newFunction _))
      (Parts.uniform_cons (uniform_lasting _ _ _)
        (Parts.uniform_cons (uniform_once _ _ (uniform_alloc _)) Parts.uniform_nil))
  · exact Parts.uniform_cons (Parts.uniform_given _ _) Parts.uniform_nil
  · exact Parts.uniform_cons (Parts.uniform_given _ _)
      (Parts.uniform_cons (Parts.uniform_given _ _) Parts.uniform_nil)

theorem uniform_methodParts (type name : String) : Parts.Uniform (methodParts type name) := by
  refine Parts.uniform_append (Parts.uniform_cons (Parts.uniform_given _ _)
    (Parts.uniform_cons (Parts.uniform_given _ _) Parts.uniform_nil)) ?_
  split <;> exact Parts.uniform_cons (Parts.uniform_given _ _) Parts.uniform_nil

theorem uniform_objectParts (w : World) (o : ObjectId) (x : Object) :
    Parts.Uniform (objectParts w o x) := by
  have hplain : ∀ x, Parts.Uniform ((Parts.ofObject? (.object o) x).getD []) := by
    intro x
    rcases hx : Parts.ofObject? (.object o) x with _ | parts
    · exact Parts.uniform_nil
    · exact fun part hpart => (ofObject_apart hx part hpart).uniform
  cases x with
  | record m fields =>
    refine Parts.uniform_append (Parts.uniform_append (Parts.uniform_append
      (Parts.uniform_givens _ _ _) ?_)
      (Parts.uniform_cons (Parts.uniform_given _ _) Parts.uniform_nil))
      (Parts.uniform_givens _ _ _)
    split
    · exact Parts.uniform_nil
    · exact Parts.uniform_cons (Parts.uniform_given _ _) Parts.uniform_nil
  | «sealed» label copyable fields => exact Parts.uniform_givens _ _ _
  | snapshot s =>
    refine Parts.uniform_append (Parts.uniform_append ?_ (Parts.uniform_givens _ _ _))
      (Parts.uniform_cons (Parts.uniform_given _ _) Parts.uniform_nil)
    exact Parts.uniform_cons (Parts.uniform_given _ _) (Parts.uniform_cons (Parts.uniform_given _ _)
      (Parts.uniform_cons (Parts.uniform_given _ _) Parts.uniform_nil))
  | attributes s => exact Parts.uniform_cons (Parts.uniform_given _ _) Parts.uniform_nil
  | layer l => exact Parts.uniform_cons (Parts.uniform_given _ _) (hplain (.layer l))
  | list items => exact hplain (.list items)
  | tuple items => exact hplain (.tuple items)
  | dict entries => exact hplain (.dict entries)
  | set members => exact hplain (.set members)
  | attr a => exact hplain (.attr a)
  | declaration d => exact hplain (.declaration d)
  | callback c => exact hplain (.callback c)
  | iteration i => exact hplain (.iteration i)

theorem uniform_ofDefinition (d : DefinitionId) (definition : Definition) :
    Parts.Uniform (Parts.ofDefinition d definition) := by
  have hkeep : ∀ f, Uniform (Parts.modifyDefinition d f) := uniform_modifyDefinition d
  have hlist : ∀ c : Event × List Callback, Uniform (do
      return (Value.keyword (.event c.1), ← Parts.list (Parts.callbacks c.2)) :
        Action (Value × Value)) := fun c => uniform_bind (uniform_alloc _) fun _ => uniform_pure _
  have hclass : Uniform (Parts.buildClass d) := by
    refine uniformWith_get (fun _ _ => rfl) fun w => ?_
    dsimp only
    split
    · exact uniformWith_noAttribute
    · exact uniform_pure _
  have htemplate : ∀ t, Parts.Uniform (Parts.ofTemplate d t) := by
    intro t
    simp only [Parts.ofTemplate, Parts.Uniform, List.forall_mem_cons]
    exact ⟨Parts.uniform_given _ _, Parts.uniform_given _ _,
      Parts.uniform_handedOut _ (fun _ => uniform_alloc _) fun _ => hkeep _, hclass,
      Parts.uniform_nil⟩
  unfold Parts.ofDefinition
  refine Parts.uniform_append ?_ ?_
  · simp only [Parts.Uniform, List.forall_mem_cons]
    refine ⟨Parts.uniform_given _ _, ?_, ?_, Parts.uniform_given _ _, Parts.uniform_given _ _, ?_,
      Parts.uniform_given _ _, Parts.uniform_given _ _, Parts.uniform_nil⟩
    · exact Parts.uniform_handedOut _ (fun _ => uniform_alloc _) fun _ => hkeep _
    · exact Parts.uniform_handedOut _ (fun _ => uniform_alloc _) fun _ => hkeep _
    · exact Parts.uniform_handedOut _ (fun _ => uniform_bind (uniform_mapM _ hlist) fun _ =>
        uniform_alloc _) fun _ => hkeep _
  · cases definition.template with
    | none => exact Parts.uniform_nil
    | some t => exact htemplate t

theorem uniform_ofEvaluation (e : EvaluationId) (evaluation : Evaluation) :
    Parts.Uniform (Parts.ofEvaluation e evaluation) := by
  have hkeep : ∀ f, Uniform (modify fun w => w.modifyEvaluation e f : Action PUnit) := fun f =>
    uniform_modify fun _ _ => rfl
  simp only [Parts.ofEvaluation, Parts.Uniform, List.forall_mem_cons]
  refine ⟨Parts.uniform_given _ _, Parts.uniform_given _ _, ?_, Parts.uniform_given _ _,
    Parts.uniform_given _ _, Parts.uniform_given _ _, ?_, ?_, Parts.uniform_nil⟩
  · show Uniform (Parts.declarationTable e evaluation)
    unfold Parts.declarationTable
    split
    · exact uniform_pure _
    · exact uniform_bind (uniform_alloc _) fun _ => uniform_bind (hkeep _) fun _ => uniform_pure _
  · exact Parts.uniform_handedOut _ (fun _ => uniform_alloc _) fun _ => hkeep _
  · exact Parts.uniform_handedOut _ (fun _ => uniform_alloc _) fun _ => hkeep _

theorem uniform_numberParts (v : Value) : Parts.Uniform (numberParts v) := by
  unfold numberParts
  split
  · exact Parts.uniform_cons (Parts.uniform_given _ _)
      (Parts.uniform_cons (uniform_newFloat _) Parts.uniform_nil)
  · simp only [Parts.Uniform, List.forall_mem_cons]
    exact ⟨Parts.uniform_given _ _, Parts.uniform_given _ _, Parts.uniform_given _ _,
      Parts.uniform_given _ _, Parts.uniform_nil⟩
  · exact Parts.uniform_nil

/-- **The parts of all but registries are read alike.** -/
theorem uniformWith_partsOf {v : Value} (h : v.isDetached) :
    UniformWith Parts.Uniform (partsOf v) := by
  have hmembers : ∀ v, UniformWith Parts.Uniform (get >>= fun w => pure (memberParts w v)) :=
    fun v => uniformWith_partsIn (fun w m => by
      simp only [memberParts, memberTables_withMargin]
      rfl) fun w => uniform_memberParts w v
  have hread : ∀ {α : Type} {a : Action α} {f : α → Parts}, Uniform a →
      (∀ x, Parts.Uniform (f x)) → UniformWith Parts.Uniform (get >>= fun (_ : World) =>
        a >>= fun x => pure (f x)) := fun ha hf =>
    uniformWith_get (fun _ _ => rfl) fun _ => uniform_bind ha fun x => uniformWith_pure (hf x)
  cases v with
  | registry r => cases h
  | resolver r => cases h
  | symbol serial payload => exact hmembers _
  | textSymbol serial s => exact hmembers _
  | keyword k => exact hmembers _
  | model m => exact uniformWith_partsIn (fun _ _ => rfl) fun w => uniform_modelParts w m
  | type name => exact uniformWith_partsIn (fun _ _ => rfl) fun _ => uniform_typeParts name
  | enumeration member =>
    exact uniformWith_partsIn (fun w m => by
      simp only [enumerationParts, memberTables_withMargin]) fun w =>
        uniform_enumerationParts w member
  | function f =>
    refine uniformWith_partsIn (fun _ _ => rfl) fun w => ?_
    cases w.function? f with
    | none => exact Parts.uniform_nil
    | some g => exact uniform_ofFunction f g
  | method serial receiver name =>
    cases receiver with
    | type type => exact uniformWith_partsIn (fun _ _ => rfl) fun _ => uniform_methodParts type name
    | _ =>
      exact uniformWith_partsIn (fun _ _ => rfl) fun _ => by
        simp [Parts.Uniform, Parts.uniform_given]
  | object o =>
    refine uniformWith_partsIn (fun _ _ => rfl) fun w => ?_
    cases w.heap.get? o with
    | none => exact Parts.uniform_nil
    | some x => exact uniform_objectParts w o x
  | builder b =>
    exact hread (uniform_getBuilder b) fun _ => by
      simp [Parts.Uniform, Parts.ofBuilder, Parts.uniform_given]
  | definition d => exact hread (uniform_getDefinition d) (uniform_ofDefinition d)
  | plan p =>
    exact hread (uniform_getStored p) fun s part hpart => (ofPlan_apart p s part hpart).uniform
  | runner r =>
    exact hread (uniform_getRunner r) fun _ => by
      simp [Parts.Uniform, Parts.ofRunner, Parts.uniform_given]
  | evaluator e =>
    exact hread (uniform_getEvaluator e) fun _ => by
      simp [Parts.Uniform, Parts.ofEvaluator, Parts.uniform_given]
  | settings s =>
    exact hread (uniform_getSettings s) fun _ => by
      simp [Parts.Uniform, Parts.ofSettings, Parts.uniform_given]
  | evaluation e => exact hread (uniform_getEvaluation e) (uniform_ofEvaluation e)
  | tableView serial aspect table =>
    refine uniformWith_partsIn (fun _ _ => rfl) fun w => Parts.uniform_cons ?_ Parts.uniform_nil
    unfold tablePart
    split <;> exact Parts.uniform_given _ _
  | _ => exact uniformWith_partsIn (fun _ _ => rfl) fun _ => uniform_numberParts _

/-! ## 2. Reading -/

theorem uniform_keptDict {v : Value} (h : v.isDetached) : Uniform (keptDict v) := by
  have hkept : Uniform (keptParts v) := by
    have hparts : Uniform (do
        ((← partsOf v).filter fun p => p.1 ∉ derivedParts v).mapM fun p => return (p.1, ← p.2)) :=
      uniformWith_bind (uniformWith_partsOf h) fun parts hmade => (uniformWith_mapM fun p hp =>
        uniform_bind (hmade p (List.mem_of_mem_filter hp)) fun _ => uniform_pure _).uniform
    unfold keptParts
    split
    · exact uniform_pure _
    · exact uniform_pure _
    · exact uniform_pure _
    · exact hparts
  exact uniform_bind hkept fun _ => uniformWith_get (fun _ _ => rfl) fun _ => uniform_alloc _

/-- What is done when no part was found under a name. -/
theorem uniform_plainRest (v : Value) {name : String} (h : v.isDetached ∨ name ≠ "__dict__") :
    Uniform (do
      let w ← get
      if name = "__hash__" && !w.hasHash v then return .null
      else if (w.method? v name).isSome then newMethod v name
      else if name = "__class__" then return w.typeOf v
      else if name = "__dict__" && w.keepsParts v then keptDict v
      else noAttribute) := by
  refine uniformWith_get (fun w m => ?_) fun w => ?_
  · have hhash : (w.withMargin m).hasHash v = w.hasHash v := rfl
    simp only [World.method?_withMargin, World.typeOf_withMargin, hhash]
    rfl
  · split
    · exact uniform_pure _
    · split
      · exact uniform_newMethod _ _
      · split
        · exact uniform_pure _
        · split
          · rename_i hdict
            simp only [Bool.and_eq_true, decide_eq_true_eq] at hdict
            exact uniform_keptDict (h.resolve_right fun hne => hne hdict.1)
          · exact uniformWith_noAttribute

/-- A part is read, or what was set in its place. -/
theorem uniform_partAmong (v : Value) {name : String} (extra : Option Value) {parts : Parts}
    (hparts : Parts.Uniform parts) (h : v.isDetached ∨ name ≠ "__dict__") :
    Uniform (match extra, parts.lookup name with
      | some x, _ => return x
      | none, some part => part
      | none, none => do
        let w ← get
        if name = "__hash__" && !w.hasHash v then return .null
        else if (w.method? v name).isSome then newMethod v name
        else if name = "__class__" then return w.typeOf v
        else if name = "__dict__" && w.keepsParts v then keptDict v
        else noAttribute) := by
  cases extra with
  | some x => exact uniform_pure x
  | none =>
    rcases hpart : parts.lookup name with _ | part
    · exact uniform_plainRest v h
    · exact hparts.lookup hpart

theorem uniform_plainField {v : Value} {name : String} (h : v.withholds name = false) :
    Uniform (plainField v name) := by
  -- Of a registry nothing is read but its extras and its methods.
  have hwithheld : ∀ {r : RegistryId} {f : Registry → Parts} (v : Value),
      (∀ reg, (f reg).lookup name = none) → name ≠ "__dict__" →
      partsOf v = (get >>= fun (_ : World) => getRegistry r >>= fun reg => pure (f reg)) →
      Uniform (plainField v name) := by
    intro r f v hnone hne hparts
    refine uniformWith_get (fun _ _ => rfl) fun w => ?_
    rw [hparts, bind_assoc]
    refine uniformWith_get (fun _ _ => rfl) fun _ => ?_
    rw [bind_assoc]
    refine uniformWith_getRegistry r (fun reg reg' _ => ?_) fun reg _ => ?_
    · simp only [pure_bind, hnone]
    · simp only [pure_bind, hnone]
      exact uniform_partAmong v _ Parts.uniform_nil (.inr hne)
  cases v with
  | registry r =>
    simp only [Value.withholds, List.contains_eq_mem, List.mem_cons, List.not_mem_nil, or_false,
      decide_eq_false_iff_not, not_or] at h
    obtain ⟨h₁, h₂, h₃, h₄, h₅, h₆⟩ := h
    refine hwithheld (.registry r) (fun reg => ?_) h₆ rfl
    simp [Parts.ofRegistry, Parts.given, Parts.lock, List.lookup_eq_none_iff, *]
  | resolver r =>
    simp only [Value.withholds, List.contains_eq_mem, List.mem_cons, List.not_mem_nil, or_false,
      decide_eq_false_iff_not, not_or] at h
    obtain ⟨h₁, h₂, h₃, h₄, h₅, h₆, h₇⟩ := h
    refine hwithheld (.resolver r) (fun reg => ?_) h₇ rfl
    simp [Parts.ofResolver, Parts.given, Parts.lock, List.lookup_eq_none_iff, *]
  | _ =>
    exact uniformWith_get (fun _ _ => rfl) fun w => uniformWith_bind (uniformWith_partsOf rfl)
      fun parts hparts => uniform_partAmong _ _ hparts (.inl rfl)

theorem uniform_contextParts (e : Evaluation) (id : EvaluationId) :
    Parts.Uniform (contextParts e id) := by
  have hclass : Uniform (do return (← get).typeOf (.context id)) :=
    uniformWith_get (fun w m => by rw [World.typeOf_withMargin]) fun _ => uniform_pure _
  refine Parts.uniform_append (Parts.uniform_append (Parts.uniform_givens _ _ _)
    (Parts.uniform_map _ fun m => uniform_newMethod (.context id) m.1)) ?_
  exact Parts.uniform_cons (uniform_alloc _) (Parts.uniform_cons hclass Parts.uniform_nil)

section Reading

variable (hhost : host.Uniform)

include hhost

theorem uniform_contextAttribute (e : EvaluationId) (name : String) :
    Uniform (contextAttribute host e name) := by
  unfold contextAttribute
  split
  · exact uniformWith_fail _
  · exact uniform_bind (uniform_evaluationOf e) fun _ => uniform_read hhost _ _

/-- **A named part is read alike**, unless it is one that registries keep to themselves. -/
theorem uniform_getAttr {v : Value} {name : String} (h : v.withholds name = false) :
    Uniform (getAttr host v name) := by
  have hplain : ∀ {v : Value}, v.withholds name = false → Uniform (plainField v name) :=
    uniform_plainField
  unfold getAttr
  split
  · refine uniform_bind (uniform_getEvaluation _) fun e => ?_
    split
    · rename_i hpart
      exact (uniform_contextParts _ _).lookup hpart
    · exact uniform_contextAttribute hhost _ _
  · split
    · rename_i hname
      subst hname
      refine uniform_bind (uniform_getBuilder _) fun builder => hplain ?_
      cases builder.definition <;> rfl
    · exact hplain h
  · exact hplain h

theorem uniform_getAttrOr {v : Value} {name : String} (h : v.withholds name = false)
    (default : Value) : Uniform (getAttrOr host v name default) := by
  refine uniformWith_tryCatch (uniform_getAttr hhost h) fun e => ?_
  split
  · exact uniform_pure _
  · exact uniformWith_throw _

theorem uniform_hasAttr {v : Value} {name : String} (h : v.withholds name = false) :
    Uniform (hasAttr host v name) := by
  refine uniform_bind (uniform_attempt (uniform_getAttr hhost h)) fun outcome => ?_
  cases outcome with
  | ok _ => exact uniform_pure _
  | error e =>
    dsimp only
    split
    · exact uniform_pure _
    · exact uniformWith_throw _

end Reading

/-! ## 3. Setting -/

theorem uniform_setExtra (v : Value) (name : String) (x : Value) : Uniform (setExtra v name x) :=
  uniform_modify fun _ _ => rfl

theorem uniform_setEntries (v : Value) (entries : List (Value × Value)) :
    Uniform (setEntries v entries) := by
  have hset : ∀ {w w' : World} (o : ObjectId) (x : Object), w.Alike w' →
      Agree (fun _ => True) ((set (w.setObject o x) : Action PUnit).execute w)
        ((set (w'.setObject o x) : Action PUnit).execute w') := fun o x hw =>
    uniform_setObject o x _ _ hw
  refine uniformWith_get_bind fun w w' hw => ?_
  have hheap : w'.heap = w.heap := by rw [hw.rest]; rfl
  rw [hheap]
  split
  · exact hset _ _ hw
  · split
    · exact hset _ _ hw
    · split
      · exact hset _ _ hw
      · exact uniformWith_wrongType w w' hw
    · exact uniformWith_wrongType w w' hw
  · exact uniformWith_wrongType w w' hw

theorem uniform_fieldsOf (v : Value) : Uniform (fieldsOf v) := by
  refine uniformWith_get (fun _ _ => rfl) fun w => ?_
  split
  · split
    · exact uniform_pure _
    · exact uniformWith_wrongType
  · exact uniformWith_wrongType

theorem uniform_setReserved (o : ObjectId) (m : Model) (fields : Table Value) (name : String)
    (x : Value) : Uniform (setReserved o m fields name x) := by
  unfold setReserved
  split
  · split
    · exact uniform_setObject _ _
    · exact uniformWith_wrongType
  · exact uniformWith_wrongType
  · exact uniform_bind (uniform_fieldsOf x) fun _ => uniform_setObject _ _
  · exact uniformWith_noAttribute

theorem uniform_setField (o : ObjectId) (m : Model) (fields : Table Value) (name : String)
    (x : Value) : Uniform (setField o m fields name x) := by
  have hset : Uniform (if m.reserved.contains name then setReserved o m fields name x
      else if m.takes name then
        modify fun w => w.setObject o (.record m (fields.insert name x))
      else noAttribute) := by
    split
    · exact uniform_setReserved _ _ _ _ _
    · split
      · exact uniform_setObject _ _
      · exact uniformWith_noAttribute
  unfold setField
  dsimp only
  split
  · refine uniformWith_get (fun w m => by rw [World.view_withMargin]) fun w => ?_
    exact uniform_bind (uniform_announce _) fun _ => hset
  · exact hset

theorem uniform_setOnFrozen (v : Value) (name : String) (x : Value) :
    Uniform (setOnFrozen v name x) := by
  unfold setOnFrozen
  split
  · exact uniform_setExtra _ _ _
  · exact uniformWith_fail _

theorem uniform_setOnObject (o : ObjectId) (name : String) (x : Value) (object : Object) :
    Uniform (setOnObject o name x object) := by
  unfold setOnObject
  split
  · exact uniform_setField _ _ _ _ _
  · split
    · exact uniformWith_wrongType
    · split
      · exact uniformWith_noAttribute
      · exact uniform_setObject _ _
  · exact uniform_setObject _ _
  · refine uniformWith_get (fun _ _ => rfl) fun w => ?_
    split
    · exact uniform_setEntries _ _
    · exact uniform_setExtra _ _ _
  · exact uniform_setOnFrozen _ _ _
  · exact uniform_setOnFrozen _ _ _
  · exact uniform_setOnFrozen _ _ _
  · exact uniform_setOnFrozen _ _ _
  · exact uniformWith_noAttribute

theorem uniform_givenName (v : Value) : Uniform (givenName v) := by
  unfold givenName
  split
  · exact uniform_pure _
  · exact uniform_bind (uniform_written _ _) fun _ => uniform_pure _

theorem uniform_setOnDefinition (d : DefinitionId) (name : String) (x : Value) :
    Uniform (setOnDefinition d name x) := by
  have hchange : ∀ f, Uniform (Parts.modifyDefinition d f) := uniform_modifyDefinition d
  have htemplate : Uniform (setOnTemplate d name x) := by
    unfold setOnTemplate
    dsimp only
    split
    · exact uniformWith_noAttribute
    · exact hchange _
    · exact hchange _
    · exact hchange _
    · exact uniform_setExtra _ _ _
  unfold setOnDefinition
  dsimp only
  split
  · exact uniformWith_noAttribute
  · exact hchange _
  · exact hchange _
  · exact hchange _
  · exact hchange _
  · exact hchange _
  · exact uniform_bind (uniform_givenName x) fun _ => hchange _
  · exact uniform_bind (uniform_written _ _) fun _ => uniform_bind (hchange _) fun _ =>
      uniform_setExtra _ _ _
  · refine uniform_bind (uniform_getDefinition d) fun _ => ?_
    split
    · exact htemplate
    · exact uniform_setExtra _ _ _

theorem uniform_setOnCallable (v : Value) (name : String) (x : Value) :
    Uniform (setOnCallable v name x) := by
  unfold setOnCallable
  split
  · refine uniformWith_get (fun _ _ => rfl) fun w => ?_
    dsimp only
    split
    · exact uniformWith_noAttribute
    · split
      · exact uniformWith_wrongType
      · exact uniform_setExtra _ _ _
  · split
    · exact uniformWith_wrongType
    · exact uniform_setExtra _ _ _
  · exact uniformWith_noAttribute

/-- What is set on any value but a registry, or what compiles for one, is set alike. -/
theorem uniform_setPart {v : Value} (h : v.isDetached) (name : String) (x : Value) :
    Uniform (setPart v name x) := by
  have hnamed : ∀ {v : Value}, Uniform (if name = "name" || name = "value" then noAttribute
      else setExtra v name x) := by
    intro v
    split
    · exact uniformWith_noAttribute
    · exact uniform_setExtra _ _ _
  cases v with
  | registry r => cases h
  | resolver r => cases h
  | type type => exact uniformWith_wrongType
  | context e => exact uniform_modifyEvaluation _ _
  | object o =>
    refine uniformWith_get (fun _ _ => rfl) fun w => ?_
    split
    · exact uniform_setOnObject _ _ _ _
    · exact uniformWith_noAttribute
  | symbol serial payload => exact hnamed
  | textSymbol serial s => exact hnamed
  | keyword k => exact hnamed
  | enumeration member =>
    unfold setPart
    dsimp only
    split
    · exact uniformWith_noAttribute
    · exact uniform_setExtra _ _ _
  | function f => exact uniform_setOnCallable (.function f) name x
  | model m => exact uniform_setOnCallable (.model m) name x
  | builder b =>
    show Uniform (setOnBuilder b name x)
    unfold setOnBuilder
    dsimp only
    split
    · exact uniformWith_noAttribute
    · exact uniform_modify fun _ _ => rfl
    · exact uniform_modify fun _ _ => rfl
    · exact uniform_setExtra _ _ _
  | definition d => exact uniform_setOnDefinition _ _ _
  | plan p => exact uniform_setOnFrozen _ _ _
  | settings s =>
    show Uniform (setSetting s name x)
    unfold setSetting
    dsimp only
    split <;> exact uniform_modify fun _ _ => rfl
  | runner r =>
    show Uniform (setOnRunner r name x)
    unfold setOnRunner
    dsimp only
    split <;> exact uniform_modify fun _ _ => rfl
  | evaluator e =>
    show Uniform (setOnEvaluator e name x)
    unfold setOnEvaluator
    dsimp only
    split <;> exact uniform_modify fun _ _ => rfl
  | evaluation e =>
    show Uniform (setOnEvaluation e name x)
    unfold setOnEvaluation
    split <;> first | exact uniform_modifyEvaluation _ _ | exact uniform_setExtra _ _ _
  | _ => exact uniformWith_noAttribute

/-- **A named part is set alike** on whatever is no registry. -/
theorem uniform_setAttr {v : Value} (h : v.isDetached) (name : String) (x : Value) :
    Uniform (setAttr v name x) := by
  have hset := uniform_setPart h name x
  refine uniformWith_get (fun w m => ?_) fun w => ?_
  · have hkeeps : (w.withMargin m).keepsParts v = w.keepsParts v := rfl
    have hobject : (w.withMargin m).heap = w.heap := rfl
    have hentries : (w.withMargin m).entries? x = w.entries? x := rfl
    rw [World.typeOf_withMargin, hkeeps, hobject, hentries]
  · split
    · exact hset
    · split
      · exact uniform_pure _
      · exact uniformWith_wrongType
    · split
      · exact uniformWith_wrongType
      · exact hset
    · exact hset

end Action

end TraitFactory
