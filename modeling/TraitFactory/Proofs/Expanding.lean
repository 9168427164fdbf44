import TraitFactory.Proofs.Visiting

/-!
# Where an expansion stops

The compiler opens the references of a compilation in the order in which they are visited, and
stops at the first one that it cannot open. With hooks that can be called nothing else stops it:
the bound on the trails is never reached, since a trail holds no definition twice.
-/

namespace TraitFactory

/-! ## 1. Failures of references -/

namespace Definitions

/-- **The failure for a name under which nothing is visible**: it tells the factory searched, and
the trait that applies the reference, if it stands inside one. -/
def missingFailure (ds : Definitions) (v : Reference) : Failure :=
  Failure.traitNotFound v.name (some (ds.nameOf v.scope)) (v.trail.getLast?.map ds.nameOf)

/-- **The failure for a trait that stands inside itself**: it tells the way from the trait that is
applied directly to the one that is met again. -/
def cycleFailure (ds : Definitions) (v : Reference) (t : DefinitionId) : Failure :=
  Failure.inFactory (.traitCycle ((v.trail ++ [t]).map ds.nameOf)) (ds.nameOf v.scope)

theorem missingTrait_eq (ds : Definitions) (scope : DefinitionId) (trail : List DefinitionId)
    (name : String) :
    ds.missingTrait scope trail true name = ds.missingFailure ⟨scope, trail, name⟩ := by
  simp only [missingTrait, missingFailure]
  cases trail.getLast? <;> rfl

/-- Plain definitions have texts for names, so a cycle can always be told by its names. -/
theorem cycle_eq {ds : Definitions} (h : ds.Plain) (scope : DefinitionId)
    (trail : List DefinitionId) (name : String) (t : DefinitionId) :
    ds.cycle scope (trail ++ [t]) = ds.cycleFailure ⟨scope, trail, name⟩ t := by
  have hnames : ((trail ++ [t]).filterMap ds.get?).all
      (fun d => d.nameValue.asText?.isSome) = true := by
    refine List.all_eq_true.mpr fun definition hmem => ?_
    obtain ⟨d, _, hd⟩ := List.mem_filterMap.mp hmem
    rw [(h d definition hd).nameValue_eq]
    rfl
  rw [cycle, if_pos hnames]
  rfl

/-- The failure of a reference that cannot be opened. -/
def failure? (ds : Definitions) (global : Table DefinitionId) (v : Reference) : Option Failure :=
  match v.target? ds global with
  | none => some (ds.missingFailure v)
  | some t => if t ∈ v.trail then some (ds.cycleFailure v t) else none

theorem failure?_eq_none_iff {ds : Definitions} {global : Table DefinitionId} {v : Reference} :
    ds.failure? global v = none ↔ v.Opens ds global := by
  unfold failure? Reference.Opens
  cases v.target? ds global <;> simp

end Definitions

namespace World

variable {w : World} {global : Table DefinitionId} {scope : DefinitionId}
  {levels trail : List DefinitionId} {kind : LayerKind} {name : String}

/-! ## 2. The three ways of one reference -/

theorem expand_missing (hw : w.definitions.Plain) (ha : Ancestry w.definitions scope levels)
    (hv : w.definitions.visible? global scope name = none) (depth : Nat) :
    w.expand (.own global) scope kind depth trail (.text name) =
      .error (w.definitions.missingFailure ⟨scope, trail, name⟩) := by
  -- Whatever is left of the bound, the reference is looked up first.
  cases depth with
  | zero => rw [expand_zero, traitAt_plain hw ha, hv, Definitions.missingTrait_eq]; rfl
  | succ depth => rw [expand_succ, traitAt_plain hw ha, hv, Definitions.missingTrait_eq]; rfl

theorem expand_cyclic (hw : w.definitions.Plain) (ha : Ancestry w.definitions scope levels)
    {t : DefinitionId} (hv : w.definitions.visible? global scope name = some t) (ht : t ∈ trail)
    (depth : Nat) :
    w.expand (.own global) scope kind depth trail (.text name) =
      .error (w.definitions.cycleFailure ⟨scope, trail, name⟩ t) := by
  have hcycle := Definitions.cycle_eq hw scope trail name t
  cases depth with
  | zero =>
    rw [expand_zero, traitAt_plain hw ha, hv, ← hcycle]
    exact if_pos ht
  | succ depth =>
    rw [expand_succ, traitAt_plain hw ha, hv, ← hcycle]
    exact if_pos ht

/-- A reference that is opened: what its trait applies, and then the trait's own layer. -/
theorem expand_opened (hw : w.definitions.Plain) (ha : Ancestry w.definitions scope levels)
    {t : DefinitionId} {definition : Definition}
    (hv : w.definitions.visible? global scope name = some t) (ht : t ∉ trail)
    (hd : w.definitions.get? t = some definition) (depth : Nat) :
    w.expand (.own global) scope kind (depth + 1) trail (.text name) = (do
      let nested ← (definition.applied.map .text).mapM
        (w.expand (.own global) scope kind depth (trail ++ [t]))
      if definition.hooksCallable then
        return nested.flatten ++ [definition.layer kind (some (w.definitions.nameOf scope))]
      else .error (Failure.raise .invalidDeclaration)) := by
  obtain ⟨_, htemplate⟩ := ha.template?_self
  have hplain := hw t definition hd
  rw [expand_succ, traitAt_plain hw ha, hv]
  show (if t ∈ trail then _ else _) = _
  rw [if_neg ht, hd]
  simp only [references_plain hplain, scopeName_plain hw htemplate, layerOf_plain hplain]
  -- Both sides expand the parts first; then one condition decides.
  cases definition.hooksCallable <;> rfl

/-- A level: the traits that it applies, and then its own layer. -/
theorem levelLayers_plain (hw : w.definitions.Plain) (ha : Ancestry w.definitions scope levels)
    {definition : Definition} (hd : w.definitions.get? scope = some definition) :
    w.levelLayers (.own global) scope = (do
      let traits ← w.expandAll (.own global) scope .trait (definition.applied.map .text)
      if definition.hooksCallable then return traits ++ [definition.layer .factory none]
      else .error (Failure.raise .invalidDeclaration)) := by
  obtain ⟨t, ht⟩ := ha.template?_self
  obtain ⟨definition', hd', htemplate⟩ := Definitions.get?_of_template? ht
  obtain rfl := Option.some.inj (hd.symm.trans hd')
  have hfactory : definition.isFactory = true := by simp [Definition.isFactory, htemplate]
  have hplain := hw scope definition hd
  simp only [levelLayers, hd, hfactory, references_plain hplain, layerOf_plain hplain]
  cases definition.hooksCallable <;> rfl

/-- **Compilation of a factory with an ancestry**: the levels, and then the call-time traits.
Neither the model nor the name can fail. -/
theorem compile_plain (hw : w.definitions.Plain) (ha : Ancestry w.definitions scope levels)
    (names : List String) :
    w.compile (.own global) scope names = (do
      let inherited ← w.staticLayers (.own global) (.ok []) levels
      let dynamic ← w.expandAll (.own global) scope .dynamicTrait (names.map .text)
      return Plan.assemble (w.definitions.nameOf scope)
        ((w.definitions.model? scope).getD .null) names (inherited ++ dynamic)) := by
  have hlineage := Definitions.lineage_eq_iff.mpr ha
  have hmodel : w.definitions.losesModel scope = false := by
    simp [Definitions.losesModel, Definitions.hasLineage, hlineage]
  obtain ⟨t, ht⟩ := ha.template?_self
  obtain ⟨definition, hd, _⟩ := Definitions.get?_of_template? ht
  have hname : w.definitions.nameOf scope = definition.name := by simp [Definitions.nameOf, hd]
  simp only [compile, Definitions.foundation, hlineage, if_true, planOn, hmodel, hd,
    writtenName_plain (hw scope definition hd), hname]
  rfl

end World

/-! ## 3. The first failure -/

/-- The failure that an outcome is, if it is one. -/
def failureOf {α : Type} : Except Failure α → Option Failure
  | .ok _ => none
  | .error e => some e

@[simp] theorem failureOf_ok {α : Type} (x : α) : failureOf (.ok x : Except Failure α) = none := rfl

@[simp] theorem failureOf_error {α : Type} (e : Failure) :
    failureOf (.error e : Except Failure α) = some e := rfl

/-- Of two things done one after the other, the first that fails counts. -/
theorem failureOf_bind {α β : Type} {x : Except Failure α} {f : α → Except Failure β}
    {e : Option Failure} (h : ∀ a, x = .ok a → failureOf (f a) = e) :
    failureOf (x >>= f) = (failureOf x).or e := by
  cases x with
  | ok a => exact h a rfl
  | error e => rfl

/-- What never fails does not count. -/
theorem failureOf_bind_of_ok {α β : Type} {x : Except Failure α} {f : α → Except Failure β}
    (h : ∀ a, failureOf (f a) = none) : failureOf (x >>= f) = failureOf x := by
  rw [failureOf_bind fun a _ => h a, Option.or_none]

theorem eq_error_of_failureOf {α : Type} {x : Except Failure α} {e : Failure}
    (h : failureOf x = some e) : x = .error e := by
  cases x with
  | ok a => cases h
  | error e' => exact congrArg Except.error (Option.some.inj h)

theorem exists_ok_iff_failureOf {α : Type} {x : Except Failure α} :
    (∃ a, x = .ok a) ↔ failureOf x = none := by
  cases x <;> simp

theorem failureOf_mapM_cons {α β : Type} {f : α → Except Failure β} {x : α} {xs : List α} :
    failureOf ((x :: xs).mapM f) = (failureOf (f x)).or (failureOf (xs.mapM f)) := by
  rw [List.mapM_cons]
  exact failureOf_bind fun y _ => failureOf_bind_of_ok fun _ => rfl

namespace World

variable {w : World} {global : Table DefinitionId} {f scope : DefinitionId}
  {levels trail : List DefinitionId} {kind : LayerKind} {names : List String}
  {vs : List Reference}

section Callable

variable (hw : w.definitions.Plain) (hhooks : ∀ d definition,
  w.definitions.get? d = some definition → definition.hooksCallable = true)
include hw hhooks

/-- **References one after another fail with the first visited one that cannot be opened**, and
with nothing else. -/
theorem failureOf_mapM_expand (ha : Ancestry w.definitions scope levels)
    (hvs : Visits w.definitions global scope trail names vs) (htrail : Trail w.definitions trail)
    {depth : Nat} (hdepth : w.definitions.size < depth + trail.length) :
    failureOf ((names.map .text).mapM (w.expand (.own global) scope kind depth trail)) =
      vs.findSome? (w.definitions.failure? global) := by
  -- By induction on the visits. The bound falls by one wherever the trail gets longer by one.
  induction hvs generalizing depth with
  | nil => rfl
  | @missing trail name names rest hv _ ih =>
    rw [List.map_cons, failureOf_mapM_cons, expand_missing hw ha hv, List.findSome?_cons]
    simp [Definitions.failure?, Reference.target?, hv]
  | @cyclic trail name names rest t hv ht _ ih =>
    rw [List.map_cons, failureOf_mapM_cons, expand_cyclic hw ha hv ht, List.findSome?_cons]
    simp [Definitions.failure?, Reference.target?, hv, ht]
  | @opened trail name names inner rest t definition hv ht hd hinner hrest ihinner ihrest =>
    have hpush := htrail.push ht hd
    obtain ⟨depth, rfl, hroom⟩ := hpush.room hdepth
    have hopens : w.definitions.failure? global ⟨scope, trail, name⟩ = none :=
      Definitions.failure?_eq_none_iff.mpr ⟨t, hv, ht⟩
    have hnested := ihinner hpush hroom
    -- The trait's own layer is there, so the reference fails just as its parts do.
    have hself : failureOf (w.expand (.own global) scope kind (depth + 1) trail (.text name)) =
        inner.findSome? (w.definitions.failure? global) := by
      rw [expand_opened hw ha hv ht hd, failureOf_bind_of_ok fun nested => ?_, hnested]
      rw [if_pos (hhooks t definition hd)]
      rfl
    rw [List.map_cons, failureOf_mapM_cons, hself, ihrest htrail hdepth, List.findSome?_cons,
      hopens, List.findSome?_append]

theorem failureOf_expandAll (kind : LayerKind) (ha : Ancestry w.definitions scope levels)
    (hvs : Visits w.definitions global scope [] names vs) :
    failureOf (w.expandAll (.own global) scope kind (names.map .text)) =
      vs.findSome? (w.definitions.failure? global) := by
  rw [expandAll, failureOf_bind_of_ok fun _ => rfl]
  exact failureOf_mapM_expand hw hhooks ha hvs .nil (Nat.lt_succ_self _)

theorem failureOf_levelLayers (ha : Ancestry w.definitions scope levels)
    {definition : Definition} (hd : w.definitions.get? scope = some definition)
    (hvs : Visits w.definitions global scope [] definition.applied vs) :
    failureOf (w.levelLayers (.own global) scope) =
      vs.findSome? (w.definitions.failure? global) := by
  rw [levelLayers_plain hw ha hd, failureOf_bind_of_ok fun traits => ?_]
  · exact failureOf_expandAll hw hhooks .trait ha hvs
  -- The level's own layer is there, so the level fails just as its traits do.
  · rw [if_pos (hhooks scope definition hd)]
    rfl

theorem failureOf_staticLayers (ha : Ancestry w.definitions f levels)
    (hvs : VisitsLevels w.definitions global levels vs) :
    failureOf (w.staticLayers (.own global) (.ok []) levels) =
      vs.findSome? (w.definitions.failure? global) := by
  -- The oldest level is compiled first, so its references come first.
  induction ha generalizing vs with
  | oldest ht hp =>
    obtain _ | ⟨hd, habove, hown⟩ := hvs
    cases habove
    have hlevel := failureOf_levelLayers hw hhooks (.oldest ht hp) hd hown
    rw [staticLayers, failureOf_bind fun _ _ => failureOf_bind_of_ok fun _ => rfl, hlevel]
    rfl
  | child ht hp ha ih =>
    obtain _ | ⟨hd, habove, hown⟩ := hvs
    have hlevel := failureOf_levelLayers hw hhooks (.child ht hp ha) hd hown
    rw [staticLayers, failureOf_bind fun _ _ => failureOf_bind_of_ok fun _ => rfl, hlevel,
      ih habove, List.findSome?_append]

/-- **Where a compilation stops**: at the first visited reference that cannot be opened. -/
theorem failureOf_compile (hvs : Visited w.definitions global f names vs) :
    failureOf (w.compile (.own global) f names) =
      vs.findSome? (w.definitions.failure? global) := by
  obtain ⟨levels, above, own, ha, habove, hown, rfl⟩ := hvs
  rw [compile_plain hw ha, failureOf_bind fun _ _ => failureOf_bind_of_ok fun _ => rfl,
    failureOf_staticLayers hw hhooks ha habove,
    failureOf_expandAll hw hhooks .dynamicTrait ha hown, List.findSome?_append]

end Callable

end World

end TraitFactory
