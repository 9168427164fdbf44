import TraitFactory.Lifecycle
import TraitFactory.Proofs.Apart
import TraitFactory.Proofs.Flattening

/-!
# Overrides of one call

A call's overrides become declarations in the order in which they are given, one for each entry.
On top of a plan the last entry of a name wins; names that no entry has keep what the plan holds.
-/

namespace TraitFactory

/-! ## 1. What an entry declares -/

namespace World

/-- A value that is at hand: an object that it refers to is there. -/
def Holds (w : World) : Value → Prop
  | .object o => (w.heap.get? o).isSome
  | _ => True

/-- **What an override declares**: an attribute value itself, and any other value as it is. -/
def overriding (w : World) (v : Value) : AttributeValue :=
  (w.heap.attribute? v).getD (.fixed v true)

/-- **A world to which objects have been added**, and nothing else. -/
structure Furnished (w w' : World) : Prop where
  objects : ∀ o x, w.heap.get? o = some x → w'.heap.get? o = some x
  undisturbed : w.Undisturbed w'

variable {w w₁ w₂ : World}

theorem Furnished.refl (w : World) : w.Furnished w :=
  ⟨fun _ _ h => h, Frame.undisturbed.refl w⟩

theorem Furnished.trans (h : w.Furnished w₁) (h' : w₁.Furnished w₂) : w.Furnished w₂ :=
  ⟨fun o x hx => h'.objects o x (h.objects o x hx),
    Frame.undisturbed.trans h.undisturbed h'.undisturbed⟩

/-- **A world that has all that another has**, of objects and of plans. -/
structure Stocks (w w' : World) : Prop where
  objects : ∀ o x, w.heap.get? o = some x → w'.heap.get? o = some x
  plans : ∀ p s, w.stored? p = some s → w'.stored? p = some s

theorem Stocks.trans (h : w.Stocks w₁) (h' : w₁.Stocks w₂) : w.Stocks w₂ :=
  ⟨fun o x hx => h'.objects o x (h.objects o x hx), fun p s hs => h'.plans p s (h.plans p s hs)⟩

theorem Furnished.stocks (h : w.Furnished w₁) : w.Stocks w₁ :=
  ⟨h.objects, fun p _ hs => (h.undisturbed.stored? p).trans hs⟩

/-- A plan is added. -/
theorem Stocks.newPlan (w : World) (s : StoredPlan) :
    w.Stocks { w with plans := w.plans.push s } where
  objects _ _ h := h
  plans p t ht := by
    have hlt : p.index < w.plans.size := (Array.getElem?_eq_some_iff.mp ht).1
    show (w.plans.push s)[p.index]? = some t
    rw [Array.getElem?_push_lt hlt]
    exact (Array.getElem?_eq_getElem hlt).symm.trans ht

theorem Stocks.holds (h : w.Stocks w₁) {v : Value} (hv : w.Holds v) : w₁.Holds v := by
  cases v <;> try trivial
  obtain ⟨x, hx⟩ := Option.isSome_iff_exists.mp hv
  exact Option.isSome_iff_exists.mpr ⟨x, h.objects _ x hx⟩

/-- A value that is at hand declares the same where there is more. -/
theorem Stocks.overriding_eq (h : w.Stocks w₁) {v : Value} (hv : w.Holds v) :
    w₁.overriding v = w.overriding v := by
  cases v <;> try rfl
  obtain ⟨x, hx⟩ := Option.isSome_iff_exists.mp hv
  simp only [overriding, Heap.attribute?, Heap.object?, hx, h.objects _ x hx]

end World

namespace Action

variable {w w' : World}

theorem execute_place (x : Object) (w : World) :
    ∃ o w', (place x).execute w = (.ok o, w') ∧ w.Furnished w' := by
  refine ⟨_, _, rfl, fun o y hy => ?_, ⟨rfl, rfl, rfl, rfl, rfl⟩⟩
  have hlt : o.index < w.heap.objects.size := (Array.getElem?_eq_some_iff.mp hy).1
  show (w.heap.objects.push x)[o.index]? = some y
  rw [Array.getElem?_push_lt hlt]
  exact (Array.getElem?_eq_getElem hlt).symm.trans hy

theorem execute_attributeValue (v : Value) (w : World) :
    ∃ o w', (attributeValue v true).execute w = (.ok (w.overriding v, o), w') ∧
      w.Furnished w' := by
  rcases ha : w.heap.attribute? v with _ | a
  · obtain ⟨o, w', hplace, hf⟩ := execute_place (.attr (.fixed v true)) w
    refine ⟨o, w', ?_, hf⟩
    rw [attributeValue, execute_bind_ok (execute_get w), World.overriding, ha]
    split
    · rename_i h
      cases h
    · rw [execute_bind_ok hplace]
      rfl
  · obtain ⟨o, rfl⟩ : ∃ o, v = .object o := by
      cases v <;> first | exact ⟨_, rfl⟩ | cases ha
    refine ⟨o, w, ?_, .refl w⟩
    rw [attributeValue, execute_bind_ok (execute_get w), World.overriding, ha]
    rfl

/-- What a declaration says for an override. -/
def Overrides (w : World) (entry : Value × Value) (d : Declaration) : Prop :=
  entry.1.name? = some d.name ∧ d.value = w.overriding entry.2 ∧ d.origin = "overrides"

/-- **An override with a name becomes a declaration.** -/
theorem execute_overrideDeclaration {entry : Value × Value} {name : String}
    (hname : entry.1.name? = some name) (w : World) :
    ∃ d w', (overrideDeclaration entry).execute w = (.ok d, w') ∧ Overrides w entry d ∧
      w.Furnished w' := by
  have hread : (attributeName entry.1).execute w = (.ok name, w) := by
    rw [attributeName, nameOr, hname]
    rfl
  obtain ⟨o, w₁, hvalue, hf₁⟩ := execute_attributeValue entry.2 w
  obtain ⟨o', w₂, hplace, hf₂⟩ := execute_place
    (.declaration ⟨name, w.overriding entry.2, "overrides", ⟨w₁.heap.size⟩, o⟩) w₁
  refine ⟨⟨name, w.overriding entry.2, "overrides", ⟨w₁.heap.size⟩, o⟩, w₂, ?_,
    ⟨hname, rfl, rfl⟩, hf₁.trans hf₂⟩
  rw [overrideDeclaration, execute_bind_ok hread, execute_bind_ok hvalue]
  dsimp only
  rw [newDeclaration, execute_bind_ok (execute_get w₁), execute_bind_ok hplace]
  rfl

/-- An override that became a declaration had a name. -/
theorem isSome_of_overrideDeclaration {entry : Value × Value} {d : Declaration}
    (h : (overrideDeclaration entry).execute w = (.ok d, w')) : entry.1.name?.isSome := by
  obtain ⟨name, w₁, hread, _⟩ := ok_of_execute_bind h
  rw [attributeName, nameOr] at hread
  split at hread
  · simp [*]
  · obtain ⟨_, _, _, hfail⟩ := ok_of_execute_bind hread
    cases hfail

/-- Entries with names become declarations, each saying what its entry means in the world that all
of them are given in. -/
theorem execute_overrideDeclarations {entries : List (Value × Value)}
    (hnames : ∀ e ∈ entries, e.1.name?.isSome) (hheld : ∀ e ∈ entries, w.Holds e.2)
    {w₁ : World} (hf : w.Furnished w₁) :
    ∃ ds w', (entries.mapM overrideDeclaration).execute w₁ = (.ok ds, w') ∧
      List.Forall₂ (Overrides w) entries ds ∧ w₁.Furnished w' := by
  induction entries generalizing w₁ with
  | nil => exact ⟨[], w₁, rfl, .nil, .refl w₁⟩
  | cons e es ih =>
    obtain ⟨name, hname⟩ := Option.isSome_iff_exists.mp (hnames e (by simp))
    obtain ⟨d, w₂, hd, hover, hf₂⟩ := execute_overrideDeclaration hname w₁
    obtain ⟨ds, w₃, hds, hovers, hf₃⟩ := ih (fun e' he' => hnames e' (by simp [he']))
      (fun e' he' => hheld e' (by simp [he'])) (hf.trans hf₂)
    -- What an entry means is read in the world that all entries are given in.
    have hover : Overrides w e d :=
      ⟨hover.1, hover.2.1.trans (hf.stocks.overriding_eq (hheld e (by simp))), hover.2.2⟩
    refine ⟨d :: ds, w₃, ?_, .cons hover hovers, hf₂.trans hf₃⟩
    rw [List.mapM_cons, execute_bind_ok hd, execute_bind_ok hds]
    rfl

theorem isSome_of_overrideDeclarations {entries : List (Value × Value)} {ds : List Declaration}
    (h : (entries.mapM overrideDeclaration).execute w = (.ok ds, w')) :
    ∀ e ∈ entries, e.1.name?.isSome := by
  induction entries generalizing w w' ds with
  | nil => simp
  | cons e es ih =>
    rw [List.mapM_cons] at h
    obtain ⟨d, w₁, hd, hrest⟩ := ok_of_execute_bind h
    obtain ⟨ds', w₂, hds, _⟩ := ok_of_execute_bind hrest
    intro e' he'
    obtain rfl | he' := List.mem_cons.mp he'
    · exact isSome_of_overrideDeclaration hd
    · exact ih hds e' he'

/-! ## 2. A plan with overrides -/

/-- The last entry of a name: the value that counts for it. -/
def lastOverride? (entries : List (Value × Value)) (name : String) : Option Value :=
  (entries.reverse.find? fun e => e.1.name? = some name).map (·.2)

/-- **What a plan with overrides holds for a name**: what the last entry of the name declares, or
else what is below. -/
def Prevails (w : World) (entries : List (Value × Value)) (name : String)
    (below found : Option Declaration) : Prop :=
  match lastOverride? entries name with
  | some v => ∃ d, found = some d ∧ d.name = name ∧ d.value = w.overriding v ∧
      d.origin = "overrides"
  | none => found = below

theorem prevails_of_overrides {entries : List (Value × Value)} {ds : List Declaration}
    (h : List.Forall₂ (Overrides w) entries ds) (name : String) (below : Option Declaration) :
    Prevails w entries name below ((ds.reverse.find? (·.name = name)).or below) := by
  -- The last entry of a name is the first of the entries read backwards.
  have hreverse := List.rel_reverse h
  unfold Prevails lastOverride?
  generalize entries.reverse = es, ds.reverse = ds at hreverse
  -- The declarations are searched like the entries, from the last one on.
  induction hreverse with
  | nil => rfl
  | @cons e d es ds hover _ ih =>
    by_cases hname : d.name = name
    · simp only [List.find?_cons, hover.1, hname, decide_true, Option.map_some, Option.some_or]
      exact ⟨d, rfl, hname, hover.2.1, hover.2.2⟩
    · have hother : ¬ e.1.name? = some name := fun h =>
        hname (Option.some.inj (hover.1.symm.trans h))
      simpa only [List.find?_cons, hname, hother, decide_false] using ih

/-- The hooks of a call, of which nothing counts as none. -/
def hooksCallable (constructor persistor : Option Value) : Bool :=
  (constructor.bind Value.hook?).all (·.isCallable) &&
    (persistor.bind Value.hook?).all (·.isCallable)

variable {p : PlanId} {plan : Plan} {entries : List (Value × Value)}
  {constructor persistor : Option Value}

/-- **Overrides and hooks are put on top of a plan**, which stays as it is. -/
theorem execute_applyOverrides (hp : w.plan? p = some plan)
    (hnames : ∀ e ∈ entries, e.1.name?.isSome) (hheld : ∀ e ∈ entries, w.Holds e.2)
    (hhooks : hooksCallable constructor persistor = true)
    (hsome : ¬ (entries = [] ∧ constructor.bind Value.hook? = none ∧
      persistor.bind Value.hook? = none)) :
    ∃ q w' ds, (applyOverrides p entries constructor persistor).execute w = (.ok q, w') ∧
      List.Forall₂ (Overrides w) entries ds ∧ w'.plan? q = some (plan.withOverrides ds
        (constructor.bind Value.hook?) (persistor.bind Value.hook?)) ∧ w.Stocks w' := by
  obtain ⟨stored, hstored, rfl⟩ := Option.map_eq_some_iff.mp hp
  unfold applyOverrides
  dsimp only
  rw [if_neg (by simpa [and_assoc] using hsome)]
  obtain ⟨ds, w₁, hds, hovers, hf⟩ := execute_overrideDeclarations hnames hheld (.refl w)
  have hget : (getStored p).execute w₁ = (.ok stored, w₁) := by
    rw [getStored, execute_bind_ok (execute_get w₁), hf.undisturbed.stored?, hstored]
    rfl
  obtain ⟨o, w₂, hplace, hf₂⟩ := execute_place (.layer (stored.plan.overrideLayer ds
    (constructor.bind Value.hook?) (persistor.bind Value.hook?))) w₁
  rw [execute_bind_ok hds]
  dsimp only [hooksCallable] at hhooks
  rw [if_pos hhooks, execute_bind_ok hget, execute_bind_ok hplace]
  -- The new plan stands last among the stored ones.
  exact ⟨_, _, ds, rfl, hovers, Option.map_eq_some_iff.mpr ⟨_, Array.getElem?_push_size, rfl⟩,
    (hf.trans hf₂).stocks.trans (.newPlan _ _)⟩

/-- Overrides with names and hooks that can be called make a plan. -/
theorem applyOverrides_spec (hp : w.plan? p = some plan) (hflat : plan.Flat)
    (hnames : ∀ e ∈ entries, e.1.name?.isSome) (hheld : ∀ e ∈ entries, w.Holds e.2)
    (hhooks : hooksCallable constructor persistor = true) :
    ∃ q w' plan', (applyOverrides p entries constructor persistor).execute w = (.ok q, w') ∧
      w'.plan? q = some plan' ∧ ∀ name,
        Prevails w entries name (plan.declaration? name) (plan'.declaration? name) := by
  by_cases hnothing : entries = [] ∧ constructor.bind Value.hook? = none ∧
      persistor.bind Value.hook? = none
  · obtain ⟨rfl, hconstructor, hpersistor⟩ := hnothing
    refine ⟨p, w, plan, ?_, hp, fun name => rfl⟩
    rw [applyOverrides, hconstructor, hpersistor]
    rfl
  · obtain ⟨q, w', ds, hexec, hovers, hq, _⟩ :=
      execute_applyOverrides hp hnames hheld hhooks hnothing
    refine ⟨q, w', _, hexec, hq, fun name => ?_⟩
    rw [Plan.declaration?_withOverrides hflat]
    exact prevails_of_overrides hovers name _

/-- Where overrides were applied, all of them had names and the hooks could be called. -/
theorem applicable_of_applyOverrides {q : PlanId}
    (h : (applyOverrides p entries constructor persistor).execute w = (.ok q, w')) :
    (∀ e ∈ entries, e.1.name?.isSome) ∧ hooksCallable constructor persistor = true := by
  unfold applyOverrides at h
  dsimp only at h
  split at h
  · rename_i hnothing
    simp only [Bool.and_eq_true, List.isEmpty_iff, Option.isNone_iff_eq_none] at hnothing
    obtain ⟨⟨rfl, hconstructor⟩, hpersistor⟩ := hnothing
    simp [hooksCallable, hconstructor, hpersistor]
  · obtain ⟨ds, w₁, hds, hrest⟩ := ok_of_execute_bind h
    refine ⟨isSome_of_overrideDeclarations hds, ?_⟩
    split at hrest
    · assumption
    · cases hrest

end Action

end TraitFactory
