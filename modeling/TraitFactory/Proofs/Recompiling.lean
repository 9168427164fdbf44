import TraitFactory.Proofs.Origins
import TraitFactory.Proofs.Overriding

/-!
# Overriding is compiling anew

A plan that is overridden is merged with the overrides once, and keeps its callbacks. This is the
plan that is assembled anew from all its layers with one layer more on top. So a plan may be
overridden step by step, or at once by a mapping in which later entries stand in for earlier ones.
-/

namespace TraitFactory

/-! ## 1. One layer more -/

theorem lastChoice_append {α : Type} (choices : List (Option α)) (c : Option α) :
    lastChoice (choices ++ [c]) = c.or (lastChoice choices) := by
  rw [lastChoice, List.foldl_append]
  rfl

namespace Plan

variable {p : Plan}

/-- **A plan that is what its layers flatten to.** -/
def Assembled (p : Plan) : Prop := p = assemble p.factory p.model p.traits p.layers

theorem assembled_assemble (factory : String) (model : Value) (traits : List String)
    (layers : List Layer) : (assemble factory model traits layers).Assembled := rfl

/-- **Overrides are one layer more.** -/
theorem withOverrides_eq (h : p.Assembled) (declarations : List Declaration)
    (constructor persistor : Option Value) :
    p.withOverrides declarations constructor persistor =
      assemble p.factory p.model p.traits
        (p.layers ++ [p.overrideLayer declarations constructor persistor]) := by
  have hattributes : p.attributes = (flatten p.layers).declarations := by rw [h]; rfl
  have hconstructor : p.constructor = lastChoice (p.layers.map (·.constructor)) := by rw [h]; rfl
  have hpersistor : p.persistor = lastChoice (p.layers.map (·.persistor)) := by rw [h]; rfl
  have hcallbacks : p.callbacks = keepFirst [] (p.layers.flatMap (·.callbacks)) := by rw [h]; rfl
  rw [withOverrides, assemble, flatten, List.foldl_append, ← flatten, List.map_append,
    List.map_append, List.map_singleton, List.map_singleton, lastChoice_append, lastChoice_append,
    List.flatMap_append, List.flatMap_singleton, hattributes, hconstructor, hpersistor, hcallbacks]
  -- The layer has no callbacks, so all that are kept are those that were.
  simp [overrideLayer]

theorem Assembled.flat (h : p.Assembled) : p.Flat := by
  rw [h]
  exact flat_assemble _ _ _ _

end Plan

/-! ## 2. What declarations say -/

/-- **What a declaration says**, whichever object it is. -/
def Declaration.said (d : Declaration) : String × AttributeValue × String :=
  (d.name, d.value, d.origin)

namespace AttributeSet

variable {s t : AttributeSet}

/-- The declarations of a set stand in the order of their names. -/
theorem Keyed.declarations_eq (h : s.Keyed) : s.declarations = s.names.filterMap s.get? := by
  have hfound : ∀ d ∈ s.declarations, s.get? d.name = some d := fun d hd =>
    h.mem_declarations.mp hd
  rw [← h.map_name, List.filterMap_map]
  generalize s.declarations = ds at hfound ⊢
  induction ds with
  | nil => rfl
  | cons d ds ih =>
    have hd := hfound d List.mem_cons_self
    rw [List.filterMap_cons_some (b := d) (by exact hd),
      ← ih fun d' hd' => hfound d' (List.mem_cons_of_mem _ hd')]

/-- **Sets with the same names in the same order** that say the same for each of them. -/
theorem Keyed.map_said (hs : s.Keyed) (ht : t.Keyed) (hnames : t.names = s.names)
    (hsaid : ∀ name, (t.get? name).map Declaration.said = (s.get? name).map Declaration.said) :
    t.declarations.map Declaration.said = s.declarations.map Declaration.said := by
  rw [hs.declarations_eq, ht.declarations_eq, List.map_filterMap, List.map_filterMap, hnames]
  exact congrArg (List.filterMap · s.names) (funext hsaid)

/-- A set is what its declarations make. -/
theorem Keyed.declarations_ofList (h : s.Keyed) :
    (ofList s.declarations).declarations = s.declarations := by
  have hget : (ofList s.declarations).get? = s.get? := funext fun name => by
    rw [get?_ofList, h.find?_reverse]
  rw [(keyed_ofList _).declarations_eq, hget, names_ofList, h.map_name, eraseDups_of_nodup h.2,
    ← h.declarations_eq]

theorem names_mergeOver (s : AttributeSet) (ht : t.Keyed) (hs : s.Keyed) :
    (s.mergeOver t.declarations).names = (t.names ++ s.names).eraseDups := by
  rw [mergeOver, names_foldl_declare (keyed_ofList _), names_ofList, ht.map_name, hs.map_name,
    eraseDups_eraseDups_append]

end AttributeSet

/-! ## 3. Mappings combined -/

/-- The entry of a name in one mapping as another has it. -/
def standIn (later : List (Value × Value)) (e : Value × Value) : Value × Value :=
  (e.1, (e.1.name?.bind (Action.lastOverride? later)).getD e.2)

/-- **Two mappings combined**: entries of the later one stand in for those of the same name, and
others follow. -/
def combined (earlier later : List (Value × Value)) : List (Value × Value) :=
  earlier.map (standIn later) ++
    later.filter fun e => earlier.all fun e' => e'.1.name? ≠ e.1.name?

/-- The names of entries. -/
def entryNames (entries : List (Value × Value)) : List String := entries.filterMap (·.1.name?)

theorem entryNames_cons_none {e : Value × Value} (h : e.1.name? = none)
    (entries : List (Value × Value)) : entryNames (e :: entries) = entryNames entries :=
  List.filterMap_cons_none h

theorem entryNames_cons_some {e : Value × Value} {name : String} (h : e.1.name? = some name)
    (entries : List (Value × Value)) : entryNames (e :: entries) = name :: entryNames entries :=
  List.filterMap_cons_some h

/-- What stands there already need not follow again. -/
theorem eraseDups_append_filter {α : Type} [DecidableEq α] {xs seen : List α}
    (h : ∀ x ∈ seen, x ∈ xs) (ys : List α) :
    (xs ++ ys.filter (· ∉ seen)).eraseDups = (xs ++ ys).eraseDups := by
  rw [List.eraseDups_append, List.eraseDups_append, List.removeAll, List.removeAll,
    List.filter_filter]
  congr 2
  refine List.filter_congr fun y _ => ?_
  by_cases hy : y ∈ seen
  · simp [hy, h y hy]
  · simp [hy]

namespace Action

variable {w : World} {earlier later entries : List (Value × Value)} {ds : List Declaration}

theorem lastOverride?_append (entries above : List (Value × Value)) (name : String) :
    lastOverride? (entries ++ above) name =
      (lastOverride? above name).or (lastOverride? entries name) := by
  rw [lastOverride?, List.reverse_append, List.find?_append, Option.map_or]
  rfl

theorem lastOverride?_eq_none {name : String} :
    lastOverride? entries name = none ↔ name ∉ entryNames entries := by
  simp [lastOverride?, entryNames]

theorem lastOverride?_standIn (earlier later : List (Value × Value)) {name : String}
    (h : name ∈ entryNames earlier) : lastOverride? (earlier.map (standIn later)) name =
      (lastOverride? later name).or (lastOverride? earlier name) := by
  obtain ⟨e, hfind⟩ : ∃ e, earlier.reverse.find? (fun e => e.1.name? = some name) = some e := by
    rw [← Option.isSome_iff_exists, List.find?_isSome]
    obtain ⟨e, he, hname⟩ := List.mem_filterMap.mp h
    exact ⟨e, List.mem_reverse.mpr he, by simpa using hname⟩
  have hname : e.1.name? = some name := by simpa using List.find?_some hfind
  have hstood : (earlier.map (standIn later)).reverse.find? (fun e => e.1.name? = some name) =
      some (standIn later e) := by
    rw [← List.map_reverse, List.find?_map]
    exact congrArg (Option.map _) hfind
  rw [lastOverride?, hstood, lastOverride?.eq_1 earlier, hfind]
  simp only [Option.map_some, standIn, hname, Option.bind_some]
  cases lastOverride? later name <;> rfl

theorem entryNames_standIn (earlier later : List (Value × Value)) :
    entryNames (earlier.map (standIn later)) = entryNames earlier := by
  rw [entryNames, List.filterMap_map]
  rfl

/-- The names that follow are those that were not there. -/
theorem entryNames_combined (earlier later : List (Value × Value)) :
    entryNames (combined earlier later) =
      entryNames earlier ++ (entryNames later).filter (· ∉ entryNames earlier) := by
  have hnew : ∀ e : Value × Value, ∀ name, e.1.name? = some name →
      ((earlier.all fun e' => e'.1.name? ≠ e.1.name?) ↔ name ∉ entryNames earlier) := by
    intro e name hname
    simp [entryNames, hname]
  have happend : ∀ es es', entryNames (es ++ es') = entryNames es ++ entryNames es' := fun _ _ =>
    List.filterMap_append
  rw [combined, happend, entryNames_standIn]
  congr 1
  induction later with
  | nil => rfl
  | cons e later ih =>
    rcases hname : e.1.name? with _ | name
    · rw [entryNames_cons_none hname, ← ih, List.filter_cons]
      split
      · rw [entryNames_cons_none hname]
      · rfl
    · rw [entryNames_cons_some hname, List.filter_cons, List.filter_cons, ← ih]
      by_cases hold : name ∈ entryNames earlier
      · rw [if_neg (mt (hnew e name hname).mp (not_not.mpr hold)), if_neg (by simpa using hold)]
      · rw [if_pos ((hnew e name hname).mpr hold), if_pos (by simpa using hold),
          entryNames_cons_some hname]

/-- **Of a combined mapping the later entries count, and else the earlier ones.** -/
theorem lastOverride?_combined (earlier later : List (Value × Value)) (name : String) :
    lastOverride? (combined earlier later) name =
      (lastOverride? later name).or (lastOverride? earlier name) := by
  rw [combined, lastOverride?_append]
  by_cases hold : name ∈ entryNames earlier
  · -- Nothing that follows has a name that was there.
    have hnone : lastOverride? (later.filter fun e => earlier.all fun e' =>
        e'.1.name? ≠ e.1.name?) name = none := by
      rw [lastOverride?_eq_none]
      intro hmem
      obtain ⟨e, he, hname⟩ := List.mem_filterMap.mp hmem
      obtain ⟨e', he', hname'⟩ := List.mem_filterMap.mp hold
      have hall := List.all_eq_true.mp (List.mem_filter.mp he).2 e' he'
      simp [hname, hname'] at hall
    rw [hnone, Option.none_or, lastOverride?_standIn _ _ hold]
  · have hnone : lastOverride? (earlier.map (standIn later)) name = none := by
      rwa [lastOverride?_eq_none, entryNames_standIn]
    rw [hnone, lastOverride?_eq_none.mpr hold, Option.or_none, Option.or_none, lastOverride?,
      lastOverride?, ← List.filter_reverse, List.find?_filter]
    congr 2
    funext e
    by_cases hname : e.1.name? = some name
    · simpa [hname, entryNames] using hold
    · simp [hname]

/-! ## 4. One after the other, or at once -/

theorem names_of_overrides (h : List.Forall₂ (Overrides w) entries ds) :
    ds.map (·.name) = entryNames entries := by
  induction h with
  | nil => rfl
  | cons hover _ ih => rw [List.map_cons, entryNames_cons_some hover.1, ih]

/-- What the declarations of a mapping say for a name. -/
theorem said_of_overrides (h : List.Forall₂ (Overrides w) entries ds) (name : String) :
    (ds.reverse.find? (·.name = name)).map Declaration.said =
      (lastOverride? entries name).map fun v => (name, w.overriding v, "overrides") := by
  have hprevails := prevails_of_overrides h name none
  rw [Option.or_none, Prevails] at hprevails
  rcases hlast : lastOverride? entries name with _ | v <;> rw [hlast] at hprevails
  · rw [hprevails]
    rfl
  · obtain ⟨d, hfound, rfl, hvalue, horigin⟩ := hprevails
    rw [hfound]
    simp [Declaration.said, hvalue, horigin]

/-- **Declarations of a mapping put over those of another** say what the declarations of the combined
mapping say, in the same order. -/
theorem said_combined {below : AttributeSet} (hbelow : below.Keyed) {ds₁ ds₂ : List Declaration}
    (h₁ : List.Forall₂ (Overrides w) earlier ds₁) (h₂ : List.Forall₂ (Overrides w) later ds₂)
    (h : List.Forall₂ (Overrides w) (combined earlier later) ds) :
    ((AttributeSet.ofList ds₂).mergeOver
        ((AttributeSet.ofList ds₁).mergeOver below.declarations).declarations).declarations.map
          Declaration.said =
      ((AttributeSet.ofList ds).mergeOver below.declarations).declarations.map
        Declaration.said := by
  have hkeyed := AttributeSet.keyed_mergeOver (AttributeSet.ofList ds₁) below.declarations
  refine AttributeSet.Keyed.map_said (AttributeSet.keyed_mergeOver _ _)
    (AttributeSet.keyed_mergeOver _ _) ?_ fun name => ?_
  · rw [AttributeSet.names_mergeOver _ hkeyed (AttributeSet.keyed_ofList _),
      AttributeSet.names_mergeOver _ hbelow (AttributeSet.keyed_ofList _),
      AttributeSet.names_mergeOver _ hbelow (AttributeSet.keyed_ofList _),
      AttributeSet.names_ofList, AttributeSet.names_ofList, AttributeSet.names_ofList,
      names_of_overrides h₁, names_of_overrides h₂, names_of_overrides h, entryNames_combined,
      eraseDups_append_eraseDups, eraseDups_append_eraseDups, eraseDups_append_eraseDups,
      eraseDups_eraseDups_append, ← List.append_assoc, eraseDups_append_filter]
    exact fun name hname => List.mem_append_right _ hname
  · rw [AttributeSet.get?_mergeOver (AttributeSet.keyed_ofList _), hkeyed.find?_reverse,
      AttributeSet.get?_mergeOver (AttributeSet.keyed_ofList _), hbelow.find?_reverse,
      AttributeSet.get?_mergeOver (AttributeSet.keyed_ofList _), hbelow.find?_reverse,
      AttributeSet.get?_ofList, AttributeSet.get?_ofList, AttributeSet.get?_ofList,
      Option.map_or, Option.map_or, Option.map_or, said_of_overrides h₁, said_of_overrides h₂,
      said_of_overrides h, lastOverride?_combined, Option.map_or, Option.or_assoc]

end Action

/-! ## 5. Plans overridden -/

/-- **Plans that say the same**, in the same order, and have the same hooks. -/
structure Plan.SaysSame (p p' : Plan) : Prop where
  attributes : p'.attributes.map Declaration.said = p.attributes.map Declaration.said
  constructor : p'.constructor = p.constructor
  persistor : p'.persistor = p.persistor
  callbacks : p'.callbacks = p.callbacks

/-- **What can be put on top of a plan**: values that are at hand under names, and hooks that can be
called. -/
structure World.Applicable (w : World) (entries : List (Value × Value))
    (constructor persistor : Option Value) : Prop where
  names : ∀ e ∈ entries, e.1.name?.isSome
  held : ∀ e ∈ entries, w.Holds e.2
  hooks : Action.hooksCallable constructor persistor = true

/-- The hook that a later call gives, or else an earlier one. -/
def laterHook (earlier later : Option Value) : Option Value := (later.bind Value.hook?).or earlier

namespace World

variable {w w' w₁ : World} {entries : List (Value × Value)} {constructor persistor : Option Value}

theorem Stocks.applicable (h : w.Stocks w') (ha : w.Applicable entries constructor persistor) :
    w'.Applicable entries constructor persistor :=
  { ha with held := fun e he => h.holds (ha.held e he) }

end World

namespace Action

variable {w w' : World} {entries : List (Value × Value)} {ds : List Declaration} {p : PlanId}
  {plan : Plan} {constructor persistor : Option Value}

/-- Values that are at hand mean the same where there is more. -/
theorem overrides_of_stocks (h : w.Stocks w') (hheld : ∀ e ∈ entries, w.Holds e.2)
    (hover : List.Forall₂ (Overrides w') entries ds) : List.Forall₂ (Overrides w) entries ds := by
  induction hover with
  | nil => exact .nil
  | cons hd _ ih =>
    exact .cons ⟨hd.1, hd.2.1.trans (h.overriding_eq (hheld _ List.mem_cons_self)), hd.2.2⟩
      (ih fun e he => hheld e (List.mem_cons_of_mem _ he))

/-- **What a plan becomes by overrides and hooks**, and even by none. -/
theorem overridden_of_applyOverrides (hp : w.plan? p = some plan) (hflat : plan.Flat)
    (ha : w.Applicable entries constructor persistor) :
    ∃ q w' ds plan', (applyOverrides p entries constructor persistor).execute w = (.ok q, w') ∧
      List.Forall₂ (Overrides w) entries ds ∧ w'.plan? q = some plan' ∧
      plan'.SaysSame (plan.withOverrides ds (constructor.bind Value.hook?)
        (persistor.bind Value.hook?)) ∧
      plan'.attributes = ((AttributeSet.ofList ds).mergeOver plan.attributes).declarations ∧
      w.Stocks w' := by
  by_cases hnothing : entries = [] ∧ constructor.bind Value.hook? = none ∧
      persistor.bind Value.hook? = none
  · obtain ⟨rfl, hconstructor, hpersistor⟩ := hnothing
    have hsame : plan.attributes = ((AttributeSet.ofList []).mergeOver plan.attributes).declarations := by
      obtain ⟨s, hs, hattributes⟩ := hflat
      rw [hattributes]
      exact hs.declarations_ofList.symm
    refine ⟨p, w, [], plan, ?_, .nil, hp, ⟨?_, ?_, ?_, rfl⟩, hsame, fun _ _ h => h, fun _ _ h => h⟩
    · rw [applyOverrides, hconstructor, hpersistor]
      rfl
    · exact congrArg _ hsame.symm
    · rw [hconstructor]
      rfl
    · rw [hpersistor]
      rfl
  · obtain ⟨q, w', ds, hexec, hovers, hq, hstocks⟩ :=
      execute_applyOverrides hp ha.names ha.held ha.hooks hnothing
    exact ⟨q, w', ds, _, hexec, hovers, hq, ⟨rfl, rfl, rfl, rfl⟩, rfl, hstocks⟩

end Action

section Combining

variable {w : World} {earlier later : List (Value × Value)}
  {constructor₁ persistor₁ constructor₂ persistor₂ : Option Value}

theorem hook?_laterHook (earlier later : Option Value) :
    (laterHook earlier later).bind Value.hook? =
      (later.bind Value.hook?).or (earlier.bind Value.hook?) := by
  have htwice : ∀ v h : Value, v.hook? = some h → h.hook? = some h := by
    intro v h hv
    unfold Value.hook? at hv
    split at hv
    · cases hv
    · rename_i hne
      cases hv
      exact if_neg hne
  rcases later with _ | v
  · rfl
  · rw [laterHook, Option.bind_some]
    rcases hv : v.hook? with _ | h
    · rfl
    · exact htwice v h hv

/-- **Mappings that can be put on top of a plan can be, combined.** -/
theorem World.Applicable.combined (h₁ : w.Applicable earlier constructor₁ persistor₁)
    (h₂ : w.Applicable later constructor₂ persistor₂) :
    w.Applicable (combined earlier later) (laterHook constructor₁ constructor₂)
      (laterHook persistor₁ persistor₂) where
  names e he := by
    obtain he | he := List.mem_append.mp he
    · obtain ⟨e', he', rfl⟩ := List.mem_map.mp he
      exact h₁.names e' he'
    · exact h₂.names e (List.mem_of_mem_filter he)
  held e he := by
    obtain he | he := List.mem_append.mp he
    · obtain ⟨e', he', rfl⟩ := List.mem_map.mp he
      show w.Holds ((e'.1.name?.bind (Action.lastOverride? later)).getD e'.2)
      rcases hlater : e'.1.name?.bind (Action.lastOverride? later) with _ | v
      · exact h₁.held e' he'
      · obtain ⟨name, _, hlast⟩ := Option.bind_eq_some_iff.mp hlater
        obtain ⟨e, hfind, rfl⟩ := Option.map_eq_some_iff.mp hlast
        exact h₂.held e (List.mem_reverse.mp (List.mem_of_find?_eq_some hfind))
    · exact h₂.held e (List.mem_of_mem_filter he)
  hooks := by
    have hall : ∀ c c' : Option Value, c.all (·.isCallable) → c'.all (·.isCallable) →
        (c.or c').all (·.isCallable) := fun c c' h h' => by cases c <;> assumption
    have hhooks₁ := h₁.hooks
    have hhooks₂ := h₂.hooks
    rw [Action.hooksCallable, Bool.and_eq_true] at hhooks₁ hhooks₂ ⊢
    rw [hook?_laterHook, hook?_laterHook]
    exact ⟨hall _ _ hhooks₂.1 hhooks₁.1, hall _ _ hhooks₂.2 hhooks₁.2⟩

end Combining

/-! ## 6. Compiled plans overridden -/

namespace Action

variable {w₀ w₁ w₂ w : World} {r : RegistryId} {factory : Value} {traits : Option Value} {p : PlanId}
  {plan : Plan}

/-- **Overriding a compiled plan is compiling with one layer more.** Wherever declarations and
compilations have led, a plan that was compiled may be overridden as long as it is there. With any
overrides at all, what comes of it is the plan that is assembled from all its layers and a layer of
the overrides and hooks on top; the plan itself stays, as do all others. To override it by one
mapping, and what comes of that by another, says the same in the same order as to override it at once
by both, combined by the names of their entries, and gives it the same hooks and callbacks. -/
theorem overriding_recompiles (hblank : w₀.Blank) (hrun : w₀.Advanced w₁)
    (hcompile : (compile r factory traits).execute w₁ = (.ok p, w₂))
    (hplan : w₂.plan? p = some plan) (hkept : w.plan? p = some plan) :
    (∀ entries constructor persistor, w.Applicable entries constructor persistor →
      ¬ (entries = [] ∧ constructor.bind Value.hook? = none ∧
        persistor.bind Value.hook? = none) →
      ∃ q w' ds, (applyOverrides p entries constructor persistor).execute w = (.ok q, w') ∧
        List.Forall₂ (Overrides w) entries ds ∧
        w'.plan? q = some (.assemble plan.factory plan.model plan.traits (plan.layers ++
          [plan.overrideLayer ds (constructor.bind Value.hook?) (persistor.bind Value.hook?)])) ∧
        w'.plan? p = some plan ∧ w.Stocks w') ∧
    ∀ earlier constructor₁ persistor₁ later constructor₂ persistor₂,
      w.Applicable earlier constructor₁ persistor₁ → w.Applicable later constructor₂ persistor₂ →
      ∃ q₁ w₁ q₂ w₂ plan₂ q w' plan',
        (applyOverrides p earlier constructor₁ persistor₁).execute w = (.ok q₁, w₁) ∧
        (applyOverrides q₁ later constructor₂ persistor₂).execute w₁ = (.ok q₂, w₂) ∧
        w₂.plan? q₂ = some plan₂ ∧
        (applyOverrides p (combined earlier later) (laterHook constructor₁ constructor₂)
          (laterHook persistor₁ persistor₂)).execute w = (.ok q, w') ∧
        w'.plan? q = some plan' ∧ plan₂.SaysSame plan' := by
  obtain ⟨s, hs, hmade⟩ := stores_of_compile hblank hrun hcompile
  obtain rfl : s.plan = plan := Option.some.inj ((congrArg (Option.map _) hs).symm.trans hplan)
  have hassembled : s.plan.Assembled := by
    obtain ⟨factory, model, traits, hp⟩ := hmade.assembled
    rw [Plan.Assembled, hp]
    rfl
  refine ⟨fun entries constructor persistor ha hsome => ?_,
    fun earlier constructor₁ persistor₁ later constructor₂ persistor₂ ha₁ ha₂ => ?_⟩
  · obtain ⟨q, w', ds, hexec, hovers, hq, hstocks⟩ :=
      execute_applyOverrides hkept ha.names ha.held ha.hooks hsome
    refine ⟨q, w', ds, hexec, hovers, ?_, ?_, hstocks⟩
    · rw [hq, Plan.withOverrides_eq hassembled]
    · obtain ⟨t, ht, hplan⟩ := Option.map_eq_some_iff.mp hkept
      exact Option.map_eq_some_iff.mpr ⟨t, hstocks.plans p t ht, hplan⟩
  · have hflat := hassembled.flat
    obtain ⟨q₁, w₁, ds₁, plan₁, hexec₁, hovers₁, hq₁, hsame₁, hattributes₁, hstocks₁⟩ :=
      overridden_of_applyOverrides hkept hflat ha₁
    have hflat₁ : plan₁.Flat := ⟨_, AttributeSet.keyed_mergeOver _ _, hattributes₁⟩
    obtain ⟨q₂, w₂, ds₂, plan₂, hexec₂, hovers₂, hq₂, hsame₂, hattributes₂, _⟩ :=
      overridden_of_applyOverrides hq₁ hflat₁ (hstocks₁.applicable ha₂)
    obtain ⟨q, w', ds, plan', hexec, hovers, hq, hsame, hattributes, _⟩ :=
      overridden_of_applyOverrides hkept hflat (ha₁.combined ha₂)
    refine ⟨q₁, w₁, q₂, w₂, plan₂, q, w', plan', hexec₁, hexec₂, hq₂, hexec, hq, ?_, ?_, ?_, ?_⟩
    · obtain ⟨below, hbelow, hplan⟩ := hflat
      rw [hattributes₂, hattributes₁, hattributes, hplan]
      exact (said_combined hbelow hovers₁ (overrides_of_stocks hstocks₁ ha₂.held hovers₂)
        hovers).symm
    · rw [← hsame.constructor, ← hsame₂.constructor]
      show ((laterHook _ _).bind Value.hook?).or _ = Option.or _ plan₁.constructor
      rw [← hsame₁.constructor, hook?_laterHook]
      exact Option.or_assoc
    · rw [← hsame.persistor, ← hsame₂.persistor]
      show ((laterHook _ _).bind Value.hook?).or _ = Option.or _ plan₁.persistor
      rw [← hsame₁.persistor, hook?_laterHook]
      exact Option.or_assoc
    · rw [← hsame.callbacks, ← hsame₂.callbacks]
      exact hsame₁.callbacks

/-- What a call first puts on top: a value for what the plan declares, and nothing at all for a name
that no layer has. -/
def firstOverlay : List (Value × Value) := [(.text "x", .int 3), (.text "y", .null)]

/-- What is put on top of that: the second name, by a symbol, and a third one. -/
def secondOverlay : List (Value × Value) := [(.textSymbol 1 "y", .int 4), (.text "z", .int 5)]

/-- **The overlaid factory** is overridden step by step, or at once. -/
theorem overriding_recompiles_overlaid : ∃ (w : World) (plan : Plan),
    (compile ⟨0⟩ (.text "f") none).execute World.overlaid = (.ok ⟨0⟩, w) ∧
    w.plan? ⟨0⟩ = some plan ∧
    (∃ q w' ds, (applyOverrides ⟨0⟩ firstOverlay none none).execute w = (.ok q, w') ∧
      w'.plan? q = some (.assemble plan.factory plan.model plan.traits
        (plan.layers ++ [plan.overrideLayer ds none none]))) ∧
    ∃ q₁ w₁ q₂ w₂ plan₂ q w' plan',
      (applyOverrides ⟨0⟩ firstOverlay none none).execute w = (.ok q₁, w₁) ∧
      (applyOverrides q₁ secondOverlay none (some (.type "dict"))).execute w₁ = (.ok q₂, w₂) ∧
      w₂.plan? q₂ = some plan₂ ∧
      (applyOverrides ⟨0⟩ [(.text "x", .int 3), (.text "y", .int 4), (.text "z", .int 5)] none
        (some (.type "dict"))).execute w = (.ok q, w') ∧
      w'.plan? q = some plan' ∧ plan₂.SaysSame plan' := by
  have hexec : (compile ⟨0⟩ (.text "f") none).execute World.overlaid =
      (.ok ⟨0⟩, _) := execute_of_outcome (by decide +kernel)
  obtain ⟨s, hs, _⟩ := stores_of_compile World.blank_fresh World.advanced_overlaid hexec
  have hplan : World.plan? _ ⟨0⟩ = some s.plan := Option.map_eq_some_iff.mpr ⟨s, hs, rfl⟩
  obtain ⟨hrecompiled, htogether⟩ := overriding_recompiles World.blank_fresh
    World.advanced_overlaid hexec hplan hplan
  have hfirst : World.Applicable ((compile ⟨0⟩ (.text "f") none).execute World.overlaid).2
      firstOverlay none none :=
    ⟨by simp [firstOverlay], by simp [firstOverlay, World.Holds], rfl⟩
  have hsecond : World.Applicable ((compile ⟨0⟩ (.text "f") none).execute World.overlaid).2
      secondOverlay none (some (.type "dict")) :=
    ⟨by simp [secondOverlay], by simp [secondOverlay, World.Holds], rfl⟩
  obtain ⟨q, w', ds, hover, _, hq, _⟩ :=
    hrecompiled firstOverlay none none hfirst fun h => by cases h.1
  exact ⟨_, s.plan, hexec, hplan, ⟨q, w', ds, hover, hq⟩, htogether _ _ _ _ _ _ hfirst hsecond⟩

end Action

end TraitFactory
