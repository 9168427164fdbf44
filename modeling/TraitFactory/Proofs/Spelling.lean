import Mathlib.Data.List.Forall2
import TraitFactory.Interpreter
import TraitFactory.Proofs.Arguments
import TraitFactory.Proofs.Handing

/-!
# Spellings of names

A name may be written as a text or as a symbol that stands for one. Wherever a name is taken it is
read before anything is compared, looked up, kept or told, so two spellings of it are taken alike:
what takes them goes the same way, fails the same way and leaves the same world.
-/

namespace TraitFactory

/-! ## 1. Spellings -/

namespace Value

variable {v v' : Value}

/-- **One name in two spellings.** What stands for no name has no other spelling. -/
def SameName (v v' : Value) : Prop := v = v' ∨ ∃ name, v.name? = some name ∧ v'.name? = some name

/-- A scope in two spellings. The name that is reserved for the global scope is spelled in one way
alone. -/
def SameScope (v v' : Value) : Prop :=
  v = v' ∨ ∃ name, name ≠ "global" ∧ v.name? = some name ∧ v'.name? = some name

/-- One text in two spellings, where nothing but a text is taken. -/
def SameText (v v' : Value) : Prop := v = v' ∨ ∃ s, v.asText? = some s ∧ v'.asText? = some s

theorem SameName.refl (v : Value) : v.SameName v := .inl rfl

theorem SameText.refl (v : Value) : v.SameText v := .inl rfl

/-- What is a text stands for it. -/
theorem name?_of_asText? {s : String} (h : v.asText? = some s) : v.name? = some s := by
  cases v <;> first | exact h | cases h

theorem SameText.sameName (h : v.SameText v') : v.SameName v' := by
  rcases h with rfl | ⟨s, hs, hs'⟩
  · exact .refl v
  · exact .inr ⟨s, name?_of_asText? hs, name?_of_asText? hs'⟩

theorem SameText.asText? (h : v.SameText v') : v'.asText? = v.asText? := by
  rcases h with rfl | ⟨s, hs, hs'⟩
  · rfl
  · rw [hs, hs']

theorem SameName.name? (h : v.SameName v') : v'.name? = v.name? := by
  rcases h with rfl | ⟨name, hn, hn'⟩
  · rfl
  · rw [hn, hn']

/-- Nothing at all is no name. -/
theorem SameName.eq_null_iff (h : v.SameName v') : v' = .null ↔ v = .null := by
  rcases h with rfl | ⟨name, hn, hn'⟩
  · rfl
  · constructor <;> rintro rfl
    · cases hn'
    · cases hn

end Value

namespace World

variable {w w' : World}

/-- The items of a list or a tuple. -/
def items? (w : World) (v : Value) : Option (List Value) :=
  match w.heap.object? v with
  | some (.list items) | some (.tuple items) => some items
  | _ => none

/-- **Names in two spellings**: those of two sequences that name the same, one by one. -/
inductive SameNames (w : World) : Option Value → Option Value → Prop
  | same (v : Option Value) : SameNames w v v
  | spelled {v v' : Value} {names names' : List Value} (h : w.items? v = some names)
      (h' : w.items? v' = some names') (hnames : List.Forall₂ Value.SameName names names') :
      SameNames w (some v) (some v')

/-- Entries whose keys are spelled in two ways and whose values are the same. -/
def SameEntry (same : Value → Value → Prop) (e e' : Value × Value) : Prop :=
  same e.1 e'.1 ∧ e'.2 = e.2

/-- **A table whose keys are spelled in two ways.** It has as many entries in one spelling as in the
other. -/
inductive SameTable (same : Value → Value → Prop) (w : World) : Option Value → Option Value → Prop
  | same (v : Option Value) : SameTable same w v v
  | spelled {v v' : Value} {entries entries' : List (Value × Value)}
      (h : w.entries? v = some entries) (h' : w.entries? v' = some entries')
      (hentries : List.Forall₂ (SameEntry same) entries entries') :
      SameTable same w (some v) (some v')

theorem SameNames.of_heap {v v' : Option Value} (h : w.SameNames v v') (hheap : w'.heap = w.heap) :
    w'.SameNames v v' := by
  cases h with
  | same v => exact .same v
  | spelled h h' hnames =>
    rw [items?, ← hheap] at h h'
    exact .spelled h h' hnames

theorem entries?_of_heap (hheap : w'.heap = w.heap) (v : Value) : w'.entries? v = w.entries? v := by
  cases v <;> simp only [entries?, hheap]

theorem SameTable.of_heap {same : Value → Value → Prop} {v v' : Option Value}
    (h : w.SameTable same v v') (hheap : w'.heap = w.heap) : w'.SameTable same v v' := by
  cases h with
  | same v => exact .same v
  | spelled h h' hentries =>
    rw [← entries?_of_heap hheap] at h h'
    exact .spelled h h' hentries

/-- What has entries counts as true unless it has none. -/
theorem isTrue_of_entries? {v : Value} {entries : List (Value × Value)}
    (h : w.entries? v = some entries) : w.isTrue v = !entries.isEmpty := by
  cases v with
  | object o =>
    rw [entries?] at h
    split at h
    · rename_i found
      cases h
      show ((w.heap.get? o).map w.isTrueObject).getD true = _
      rw [found]
      rfl
    · cases h
  | fields o =>
    show (w.entries? (.fields o)).all (fun es => !es.isEmpty) = _
    rw [h]
    rfl
  | _ => cases h

end World

/-! ## 2. Going the same way -/

namespace Action

variable {α β : Type} {w : World}

/-- What comes of two actions: the same failure, or results that stand in a relation, and in both
cases the same world. -/
inductive SameEnd (R : α → α → Prop) : Except Failure α × World → Except Failure α × World → Prop
  | ok {x x' : α} (h : R x x') (w : World) : SameEnd R (.ok x, w) (.ok x', w)
  | error (e : Failure) (w : World) : SameEnd R (.error e, w) (.error e, w)

/-- **Two actions go the same way** in a world. -/
def Concur (R : α → α → Prop) (a a' : Action α) (w : World) : Prop :=
  SameEnd R (a.execute w) (a'.execute w)

theorem concur_refl {R : α → α → Prop} (hR : ∀ x, R x x) (a : Action α) (w : World) :
    Concur R a a w := by
  rw [Concur]
  rcases a.execute w with ⟨e | x, w'⟩
  · exact .error e w'
  · exact .ok (hR x) w'

theorem concur_of_eq {a a' : Action α} (h : a = a') (w : World) : Concur Eq a a' w :=
  h ▸ concur_refl (fun _ => rfl) a w

theorem concur_pure {R : α → α → Prop} {x x' : α} (h : R x x') (w : World) :
    Concur R (pure x) (pure x') w := .ok h w

theorem execute_eq_of_concur {a a' : Action α} (h : Concur Eq a a' w) :
    a'.execute w = a.execute w := by
  unfold Concur at h
  generalize a.execute w = s, a'.execute w = s' at h
  cases h with
  | ok h w' => rw [h]
  | error e w' => rfl

theorem concur_bind {R : α → α → Prop} {Q : β → β → Prop} {a a' : Action α}
    {f f' : α → Action β} (ha : Concur R a a' w)
    (hf : ∀ x x' w', R x x' → a.execute w = (.ok x, w') → Concur Q (f x) (f' x') w') :
    Concur Q (a >>= f) (a' >>= f') w := by
  rw [Concur, execute_bind, execute_bind]
  rw [Concur] at ha
  generalize hs : a.execute w = s, a'.execute w = s' at ha
  cases ha with
  | ok hR w' => exact hf _ _ w' hR hs
  | error e w' => exact .error e w'

/-- After one beginning two actions may go on in the same way. -/
theorem concur_bind_left {Q : β → β → Prop} {a : Action α} {f f' : α → Action β}
    (hf : ∀ x w', a.execute w = (.ok x, w') → Concur Q (f x) (f' x) w') :
    Concur Q (a >>= f) (a >>= f') w :=
  concur_bind (concur_refl (fun _ => rfl) a w) fun x _ w' hx ha => hx ▸ hf x w' ha

/-- What only reads leaves the world as it is. -/
theorem concur_bind_read {Q : β → β → Prop} {a : Action α} {f f' : α → Action β}
    (ha : Keeps .same a) (hf : ∀ x, Concur Q (f x) (f' x) w) :
    Concur Q (a >>= f) (a >>= f') w :=
  concur_bind_left fun x w' hx => by
    have hsame := ha w
    rw [hx] at hsame
    subst hsame
    exact hf x

/-- Sequences that are alike one by one are gone through alike. -/
theorem mapM_congr {R : α → α → Prop} {f : α → Action β} (hf : ∀ x x', R x x' → f x = f x')
    {xs xs' : List α} (h : List.Forall₂ R xs xs') : xs.mapM f = xs'.mapM f := by
  induction h with
  | nil => rfl
  | cons hx _ ih => rw [List.mapM_cons, List.mapM_cons, hf _ _ hx, ih]

theorem forIn_congr {R : α → α → Prop} {f : α → β → Action (ForInStep β)}
    (hf : ∀ x x', R x x' → f x = f x') {xs xs' : List α} (h : List.Forall₂ R xs xs') (s : β) :
    forIn xs s f = forIn xs' s f := by
  induction h generalizing s with
  | nil => rfl
  | cons hx _ ih =>
    rw [List.forIn_cons, List.forIn_cons, hf _ _ hx]
    congr 1
    funext step
    cases step with
    | done s => rfl
    | yield s => exact ih s

/-! ## 3. Reading names -/

section Names

variable {v v' : Value}

/-- **A name is read before all else.** -/
theorem nameOr_congr (h : v.SameName v') (cause : String → Cause) :
    nameOr cause v = nameOr cause v' := by
  rcases h with rfl | ⟨name, hn, hn'⟩
  · rfl
  · rw [nameOr, nameOr, hn, hn']

theorem factoryName_congr (h : v.SameName v') : factoryName v = factoryName v' := nameOr_congr h _

theorem traitName_congr (h : v.SameName v') : traitName v = traitName v' := nameOr_congr h _

theorem attributeName_congr (h : v.SameName v') : attributeName v = attributeName v' :=
  nameOr_congr h _

end Names

theorem mapM_walkOf (items : List Value) : (walkOf items).mapM id = (pure items : Action _) := by
  induction items with
  | nil => rfl
  | cons x xs ih =>
    rw [walkOf, List.map_cons, List.mapM_cons]
    exact congrArg (fun a : Action (List Value) => (do return x :: (← a))) ih

/-- The elements of a list or a tuple are its items. -/
theorem walkPlain_object (o : ObjectId) : walkPlain (.object o) = get >>= fun w =>
    match w.heap.get? o with
    | some x => walkObject (.object o) x
    | none => wrongType := rfl

theorem execute_elements_of_items? {v : Value} {items : List Value} (h : w.items? v = some items) :
    (elements v).execute w = (.ok items, w) := by
  cases v with
  | object o =>
    have hbehind : (Value.object o).behind = .object o := rfl
    have hobject : w.heap.object? (.object o) = w.heap.get? o := rfl
    have hwalk : (walk (.object o)).execute w = (.ok (walkOf items), w) := by
      rw [World.items?] at h
      split at h <;> rename_i found <;> cases h <;> rw [hobject] at found <;>
        simp only [walk, hbehind, walkPlain_object, execute_bind_ok (execute_get w), hobject, found] <;> rfl
    rw [elements, execute_bind_ok hwalk, mapM_walkOf]
    rfl
  | _ => cases h

theorem concur_elementsOf {traits traits' : Option Value} (h : w.SameNames traits traits') :
    Concur (List.Forall₂ Value.SameName) (elementsOf traits) (elementsOf traits') w := by
  cases h with
  | same v => exact concur_refl (fun names => List.forall₂_same.mpr fun v _ => .refl v) _ w
  | spelled h h' hnames =>
    rw [Concur, elementsOf, elementsOf, execute_elements_of_items? h, execute_elements_of_items? h']
    exact .ok hnames w

/-! ## 4. Taking one name -/

section Taking

variable {v v' scope scope' : Value} (r : RegistryId) (d : DefinitionId)

theorem findFactoryValue_congr (h : v.SameName v') :
    findFactoryValue r v = findFactoryValue r v' := by
  rw [findFactoryValue, findFactoryValue, factoryName_congr h]

theorem findFactory_congr (h : v.SameName v') : findFactory r v = findFactory r v' := by
  rw [findFactory, findFactory, findFactoryValue_congr r h]

/-- A scope that is named, other than the global one, is the factory of that name. -/
theorem scopeFactory_of_name {name : String} (hne : name ≠ "global")
    (h : scope.name? = some name) : scopeFactory r scope = some <$> findFactory r scope := by
  have hnull : scope ≠ .null := by
    rintro rfl
    cases h
  have hglobal : scope.asText? ≠ some "global" := fun hs => by
    have hsame := (Value.name?_of_asText? hs).symm.trans h
    exact hne (Option.some.inj hsame).symm
  have hnot : ¬ (decide (scope = .null) || decide (scope.asText? = some "global")) = true := by
    simp only [Bool.or_eq_true, decide_eq_true_eq, not_or]
    exact ⟨hnull, hglobal⟩
  rw [scopeFactory, if_neg hnot]
  rintro d rfl
  cases h

theorem scopeFactory_congr (h : scope.SameScope scope') :
    scopeFactory r scope = scopeFactory r scope' := by
  rcases h with rfl | ⟨name, hne, hn, hn'⟩
  · rfl
  · rw [scopeFactory_of_name r hne hn, scopeFactory_of_name r hne hn',
      findFactory_congr r (.inr ⟨name, hn, hn'⟩)]

theorem resolveTraitValue_congr (hscope : scope.SameScope scope') (h : v.SameName v') :
    resolveTraitValue r scope v = resolveTraitValue r scope' v' := by
  rw [resolveTraitValue, resolveTraitValue, traitName_congr h, scopeFactory_congr r hscope]

theorem registerTrait_congr (hscope : scope.SameScope scope') (h : v.SameName v') :
    registerTrait r scope v d = registerTrait r scope' v' d := by
  rw [registerTrait, registerTrait, traitName_congr h, scopeFactory_congr r hscope]

theorem parentOf_congr (h : v.SameName v') : parentOf r v = parentOf r v' := by
  rcases h with rfl | ⟨name, hn, hn'⟩
  · rfl
  · have hfind : ∀ {v : Value}, v.name? = some name → parentOf r v = findFactoryValue r v := by
      intro v hv
      cases v <;> first | rfl | cases hv
    rw [hfind hn, hfind hn', findFactoryValue_congr r (.inr ⟨name, hn, hn'⟩)]

theorem defineTrait_congr (h : v.SameName v') : defineTrait r v = defineTrait r v' := by
  rw [defineTrait, defineTrait, traitName_congr h]

theorem localTrait_congr (on : Value) (h : v.SameName v') : localTrait on v = localTrait on v' := by
  simp only [localTrait, traitName_congr h]

theorem applyTrait_congr (h : v.SameName v') : applyTrait d v = applyTrait d v' := by
  simp only [applyTrait, traitName_congr h]

theorem declareMade_congr (h : v.SameName v') (value : AttributeValue) (o : ObjectId) :
    declareMade d v value o = declareMade d v' value o := by
  simp only [declareMade, attributeName_congr h]

theorem declare_congr (h : v.SameName v') (value : Value) :
    declare d v value = declare d v' value := by
  simp only [declare, declareMade_congr d h]

theorem declareNew_congr (h : v.SameName v') (value : AttributeValue) :
    declareNew d v value = declareNew d v' value := by
  simp only [declareNew, declareMade_congr d h]

theorem overrideDeclaration_congr {e e' : Value × Value} (h : World.SameEntry Value.SameName e e') :
    overrideDeclaration e = overrideDeclaration e' := by
  rw [overrideDeclaration, overrideDeclaration, attributeName_congr h.1, h.2]

/-! ### On the context of an evaluation -/

variable (host : Host) (e : EvaluationId)

theorem getItem_context_congr (h : v.SameName v') :
    getItem host (.context e) v = getItem host (.context e) v' := by
  have hread : ∀ key, getItem host (.context e) key =
      (do
        let name ← attributeName key
        read host (← evaluationOf e) name) := fun _ => rfl
  rw [hread, hread, attributeName_congr h]

theorem contextFind_congr (h : v.SameName v') (default : Value) :
    contextFind host e v default = contextFind host e v' default := by
  rw [contextFind, contextFind, attributeName_congr h]

theorem contains_context_eq (key : Value) : contains (.context e) key =
    match key.name? with
    | some name => do
      return (← declared? (← getEvaluation (← evaluationOf e)) name).isSome
    | none => return false := rfl

theorem contains_context_congr (h : v.SameName v') :
    contains (.context e) v = contains (.context e) v' := by
  rw [contains_context_eq, contains_context_eq, h.name?]

end Taking

/-! ## 5. Taking several names -/

section Several

variable {traits traits' overrides overrides' : Option Value} {v v' : Value}

/-- The entries of tables that are spelled in two ways. -/
theorem concur_entriesOf {same : Value → Value → Prop} (hrefl : ∀ v, same v v)
    (h : w.SameTable same overrides overrides') :
    Concur (List.Forall₂ (World.SameEntry same)) (entriesOf overrides) (entriesOf overrides')
      w := by
  have hread : ∀ {v : Value} {entries}, w.entries? v = some entries →
      (entriesOf (some v)).execute w = (.ok entries, w) := fun {v} entries h => by
    rw [entriesOf, execute_bind_ok (execute_get w), h]
    rfl
  cases h with
  | same v => exact concur_refl (fun es => List.forall₂_same.mpr fun e _ => ⟨hrefl _, rfl⟩) _ w
  | spelled h h' hentries =>
    rw [Concur, hread h, hread h']
    exact .ok hentries w

theorem concur_keywordsOf (h : w.SameTable Value.SameText overrides overrides') :
    Concur (List.Forall₂ (World.SameEntry Value.SameText)) (keywordsOf overrides)
      (keywordsOf overrides') w := by
  have hall : ∀ {es es' : List (Value × Value)},
      List.Forall₂ (World.SameEntry Value.SameText) es es' →
      (es'.all fun e => e.1.asText?.isSome) = es.all fun e => e.1.asText?.isSome := by
    intro es es' hes
    induction hes with
    | nil => rfl
    | cons he _ ih => rw [List.all_cons, List.all_cons, ih, he.1.asText?]
  refine concur_bind (concur_entriesOf .refl h) fun es es' w' hes _ => ?_
  rw [hall hes]
  split
  · exact concur_pure hes w'
  · exact .error _ w'

/-- **An association** names its factory, its traits and what it overrides. The table is read when
the traits have been read. -/
theorem concur_makeAssociation (hfactory : v.SameName v') (htraits : w.SameNames traits traits')
    (strategy : Option Value) (hoverrides : ∀ names w', (elementsOf traits).execute w =
      (.ok names, w') → w'.SameTable Value.SameText overrides overrides') :
    Concur Eq (makeAssociation v traits strategy overrides)
      (makeAssociation v' traits' strategy overrides') w := by
  have hstrategy : ∀ {es es' : List (Value × Value)},
      List.Forall₂ (World.SameEntry Value.SameText) es es' →
      (es'.any fun e => e.1.asText? = some "strategy") =
        es.any fun e => e.1.asText? = some "strategy" := by
    intro es es' hes
    induction hes with
    | nil => rfl
    | cons he _ ih => rw [List.any_cons, List.any_cons, ih, he.1.asText?]
  unfold makeAssociation
  refine concur_bind (concur_elementsOf htraits) fun names names' w₁ hnames hread => ?_
  refine concur_bind (concur_keywordsOf (hoverrides names w₁ hread)) fun es es' w₂ hes _ => ?_
  have hentry : ∀ e e', World.SameEntry Value.SameText e e' →
      (do return (← attributeName e.1, e.2) : Action (String × Value)) =
        (do return (← attributeName e'.1, e'.2)) := fun e e' he => by
    rw [attributeName_congr he.1.sameName, he.2]
  rw [hstrategy hes, mapM_congr (fun _ _ h => traitName_congr h) hnames, mapM_congr hentry hes,
    factoryName_congr hfactory]
  simp only [hfactory.eq_null_iff]
  exact concur_refl (fun _ => rfl) _ w₂

theorem concur_associate (on : Value) {name name' : Value} (hname : name.SameName name')
    (hfactory : v.SameName v') (htraits : w.SameNames traits traits') (strategy : Option Value)
    (hoverrides : ∀ names w', (elementsOf traits).execute w = (.ok names, w') →
      w'.SameTable Value.SameText overrides overrides') :
    Concur Eq (associate on name v traits strategy overrides)
      (associate on name' v' traits' strategy overrides') w := by
  refine concur_bind_read (keeps_declaredOn on) fun d => ?_
  refine concur_bind (concur_makeAssociation hfactory htraits strategy hoverrides)
    fun a a' w₁ ha _ => ?_
  rw [ha, declareNew_congr d hname]
  exact concur_refl (fun _ => rfl) _ w₁

theorem concur_apply (on : Value) (htraits : w.SameNames (some v) (some v')) :
    Concur Eq (apply on v) (apply on v') w := by
  refine concur_bind_read (keeps_declaredOn on) fun d => ?_
  refine concur_bind (concur_elementsOf htraits) fun names names' w₁ hnames _ => ?_
  rw [forIn_congr (fun ref ref' h => ?_) hnames]
  · exact concur_refl (fun _ => rfl) _ w₁
  · simp only [applyTrait_congr _ h]

theorem concur_defineFactory (r : RegistryId) {name name' : Value} (hname : name.SameName name')
    (model : Value) (hparent : v.SameName v') (htraits : w.SameNames traits traits') :
    Concur Eq (defineFactory r name model v traits) (defineFactory r name' model v' traits') w := by
  rw [defineFactory, defineFactory, parentOf_congr r hparent, factoryName_congr hname]
  refine concur_bind_read (keeps_parentOf r v') fun parent => ?_
  refine concur_bind_read (keeps_nameOr _ _) fun name => ?_
  refine concur_bind (concur_elementsOf htraits) fun names names' w₁ hnames _ => ?_
  rw [mapM_congr (fun _ _ h => traitName_congr h) hnames]
  exact concur_refl (fun _ => rfl) _ w₁

theorem concur_childFactory (on : Value) {name name' : Value} (hname : name.SameName name')
    (model : Value) (htraits : w.SameNames traits traits') :
    Concur Eq (childFactory on name model traits) (childFactory on name' model traits') w :=
  concur_bind_read (keeps_factoryBuilder on) fun _ =>
    concur_bind_read (keeps_requireRegistry _) fun r =>
      concur_defineFactory r hname model (.refl _) htraits

/-- **A plan is compiled**, or served from the cache, by what its factory and traits are named. -/
theorem concur_compile (r : RegistryId) (hfactory : v.SameName v')
    (htraits : w.SameNames traits traits') :
    Concur Eq (compile r v traits) (compile r v' traits') w := by
  refine concur_bind_read (keeps_resolverOf r) fun r' => ?_
  simp only [compileBy, findFactoryValue_congr _ hfactory]
  refine concur_bind_read (keeps_sourceOf r') fun source => ?_
  refine concur_bind_read (keeps_findFactoryValue source v') fun found => ?_
  refine concur_bind (concur_elementsOf htraits) fun names names' w₁ hnames _ => ?_
  rw [mapM_congr (fun _ _ h => traitName_congr h) hnames]
  exact concur_refl (fun _ => rfl) _ w₁

theorem applyOverrides_congr (p : PlanId) {es es' : List (Value × Value)}
    (h : List.Forall₂ (World.SameEntry Value.SameName) es es')
    (constructor persistor : Option Value) :
    applyOverrides p es constructor persistor = applyOverrides p es' constructor persistor := by
  have hempty : es.isEmpty = es'.isEmpty := by cases h <;> rfl
  rw [applyOverrides, applyOverrides, hempty,
    mapM_congr (fun _ _ h => overrideDeclaration_congr h) h]

theorem concur_overrideEntries (host : Host)
    (h : w.SameTable Value.SameName overrides overrides') :
    Concur (List.Forall₂ (World.SameEntry Value.SameName))
      (overrideEntries host (overrides.getD .null)) (overrideEntries host (overrides'.getD .null))
      w := by
  have hread : ∀ {v : Value} {entries}, w.entries? v = some entries →
      (overrideEntries host v).execute w = (.ok entries, w) := fun {v} entries h => by
    rw [overrideEntries, execute_bind_ok (execute_get w), World.isTrue_of_entries? h, h]
    cases entries <;> rfl
  cases h with
  | same v => exact concur_refl (fun es => List.forall₂_same.mpr fun e _ => ⟨.refl _, rfl⟩) _ w
  | spelled h h' hentries =>
    rw [Concur, Option.getD_some, Option.getD_some, hread h, hread h']
    exact .ok hentries w

/-- **Overrides are read as names** when a plan is evaluated. -/
theorem concur_evaluate (host : Host) (ev : EvaluatorId) (p : PlanId) (strategy : Value)
    (h : w.SameTable Value.SameName overrides overrides') (constructor persistor : Option Value) :
    Concur Eq (evaluate host ev p strategy (overrides.getD .null) constructor persistor)
      (evaluate host ev p strategy (overrides'.getD .null) constructor persistor) w := by
  refine concur_bind_read (keeps_strategyOf strategy) fun s => ?_
  refine concur_bind (concur_overrideEntries host h) fun es es' w₁ hes _ => ?_
  rw [applyOverrides_congr p hes]
  exact concur_refl (fun _ => rfl) _ w₁

end Several

end Action

/-! ## 6. Making lists and tables

A list of names can be made in both spellings, and so can a table under different names. -/

namespace World

variable {w w' : World}

/-- What stands for a name is a text of some kind or a symbol. -/
theorem kinds_of_name {v : Value} {s : String} (h : v.name? = some s) :
    v = .text s ∨ (∃ n, v = .textSymbol n s) ∨ (∃ k, v = .keyword k ∧ k.text = s) ∨
      ∃ n p, v = .symbol n p := by
  cases v with
  | text t => exact .inl (congrArg Value.text (Option.some.inj h))
  | textSymbol n t => exact .inr (.inl ⟨n, congrArg (Value.textSymbol n) (Option.some.inj h)⟩)
  | keyword k => exact .inr (.inr (.inl ⟨k, rfl, Option.some.inj h⟩))
  | symbol n p => exact .inr (.inr (.inr ⟨n, p, rfl⟩))
  | _ => cases h

/-- **Different names are different keys**, however they are spelled. -/
theorem sameKey_of_names {a b : Value} {s t : String} (ha : a.name? = some s)
    (hb : b.name? = some t) (hne : s ≠ t) : w.sameKey a b = false := by
  have hdiffer : a ≠ b := by
    rintro rfl
    exact hne (Option.some.inj (ha.symm.trans hb))
  have hequal : w.equal a b = false := by
    rw [World.equal, comparingDepth, same]
    rcases kinds_of_name ha with rfl | ⟨n, rfl⟩ | ⟨k, rfl, hk⟩ | ⟨n, p, rfl⟩ <;>
      rcases kinds_of_name hb with rfl | ⟨m, rfl⟩ | ⟨l, rfl, hl⟩ | ⟨m, q, rfl⟩ <;>
      simp_all [Value.sameScalar?, Value.asText?, Value.asInt?, sameParts?, sameTables?, entries?,
        keysShown?, entriesShown?, Heap.object?]
  rw [sameKey, samePart, if_neg hdiffer]
  exact hequal

theorem isKey_of_name {v : Value} {s : String} (h : v.name? = some s) : w.isKey v = true := by
  rcases kinds_of_name h with rfl | ⟨n, rfl⟩ | ⟨k, rfl, _⟩ | ⟨n, p, rfl⟩ <;> rfl

/-- **A table whose keys are names**, each another one. -/
def Named (entries : List (Value × Value)) (names : List String) : Prop :=
  List.Forall₂ (fun e name => e.1.name? = some name) entries names

theorem insertEntry_of_new {entries : List (Value × Value)} {names : List String}
    (h : Named entries names) {k x : Value} {name : String} (hk : k.name? = some name)
    (hnew : name ∉ names) : w.insertEntry k x entries = entries ++ [(k, x)] := by
  induction h with
  | nil => rfl
  | @cons e s es names he _ ih =>
    rw [List.mem_cons, not_or] at hnew
    rw [insertEntry, sameKey_of_names he hk (Ne.symm hnew.1), if_neg Bool.false_ne_true,
      ih hnew.2, List.cons_append]

end World

namespace Action

variable {w : World}

theorem execute_addEntries {entries : List (Value × Value)} {names : List String}
    (h : World.Named entries names) {before : List (Value × Value)} {names' : List String}
    (hbefore : World.Named before names') (hnodup : (names' ++ names).Nodup) :
    (entries.foldlM (fun es e => addEntry es e.1 e.2) before).execute w =
      (.ok (before ++ entries), w) := by
  induction h generalizing before names' with
  | nil =>
    rw [List.append_nil]
    rfl
  | @cons e s es names he _ ih =>
    have hnew : s ∉ names' := fun hs =>
      (List.nodup_append.mp hnodup).2.2 s hs s List.mem_cons_self rfl
    have hadd : (addEntry before e.1 e.2).execute w = (.ok (before ++ [(e.1, e.2)]), w) := by
      have hkey : (requireKey e.1).execute w = (.ok ⟨⟩, w) := by
        rw [requireKey, execute_bind_ok (execute_get w), World.isKey_of_name he]
        rfl
      rw [addEntry, execute_bind_ok hkey, execute_bind_ok (execute_get w),
        World.insertEntry_of_new hbefore he hnew]
      rfl
    have hafter : World.Named (before ++ [(e.1, e.2)]) (names' ++ [s]) :=
      List.rel_append hbefore (.cons he .nil)
    have hnodup' : ((names' ++ [s]) ++ names).Nodup := by
      rwa [List.append_assoc, List.singleton_append]
    rw [List.foldlM_cons, execute_bind_ok hadd, ih hafter hnodup', List.append_assoc,
      List.singleton_append]

/-- A dictionary of entries under different names has just these entries. -/
theorem execute_newDict_of_named {entries : List (Value × Value)} {names : List String}
    (h : World.Named entries names) (hnodup : names.Nodup) :
    (newDict entries).execute w = (alloc (.dict entries)).execute w := by
  rw [newDict, execute_bind_ok (execute_addEntries h .nil hnodup), List.nil_append]

/-- What is made is an object from then on. -/
theorem execute_alloc (x : Object) : ∃ o w', (alloc x).execute w = (.ok (.object o), w') ∧
    w'.heap.get? o = some x ∧ ∀ o' y, w.heap.get? o' = some y → w'.heap.get? o' = some y :=
  ⟨_, _, rfl, Array.getElem?_push_size, fun _ y h => get?_alloc x y h⟩

end Action

end TraitFactory
