import Mathlib.Data.List.Forall2
import TraitFactory.Proofs.Expanding

/-!
# Compilations that agree

Two expansions of the same references agree when every visited reference means the same trait in
both, which applies the same traits and contributes alike. What *alike* means is left open, for
layers and for failures: where it is equality, a compilation is not affected by a change of the
definitions that it does not read.
-/

namespace TraitFactory

/-! ## 1. Outcomes that agree -/

/-- **Two outcomes agree**: both are results, related in one way, or both are failures, related in
another. -/
inductive Agrees {α β : Type} (R : α → β → Prop) (E : Failure → Failure → Prop) :
    Except Failure α → Except Failure β → Prop
  | ok {x : α} {y : β} (h : R x y) : Agrees R E (.ok x) (.ok y)
  | error {e e' : Failure} (h : E e e') : Agrees R E (.error e) (.error e')

namespace Agrees

variable {α β γ δ : Type} {R : α → β → Prop} {S : γ → δ → Prop} {E : Failure → Failure → Prop}
  {x : Except Failure α} {y : Except Failure β}

theorem bind {f : α → Except Failure γ} {g : β → Except Failure δ} (h : Agrees R E x y)
    (hf : ∀ a b, R a b → Agrees S E (f a) (g b)) : Agrees S E (x >>= f) (y >>= g) := by
  cases h with
  | ok h => exact hf _ _ h
  | error h => exact .error h

theorem imp {R' : α → β → Prop} (h : Agrees R E x y) (hR : ∀ a b, R a b → R' a b) :
    Agrees R' E x y := by
  cases h with
  | ok h => exact .ok (hR _ _ h)
  | error h => exact .error h

theorem refl {R : α → α → Prop} (hR : ∀ a, R a a) (hE : ∀ e, E e e) (x : Except Failure α) :
    Agrees R E x x := by
  cases x with
  | ok a => exact .ok (hR a)
  | error e => exact .error (hE e)

theorem eq {x y : Except Failure α} (h : Agrees Eq Eq x y) : x = y := by
  cases h with
  | ok h => rw [h]
  | error h => rw [h]

theorem mapM_cons {f : γ → Except Failure α} {g : γ → Except Failure β} {z : γ} {zs : List γ}
    (h : Agrees R E (f z) (g z)) (hs : Agrees (List.Forall₂ R) E (zs.mapM f) (zs.mapM g)) :
    Agrees (List.Forall₂ R) E ((z :: zs).mapM f) ((z :: zs).mapM g) := by
  rw [List.mapM_cons, List.mapM_cons]
  exact h.bind fun a b hab => hs.bind fun as bs hs => .ok (.cons hab hs)

end Agrees

/-! ## 2. References that mean the same -/

/-- **A visited reference means the same** in another reading of the definitions, where it is
looked up from a factory of that reading. -/
structure Reference.Matches (R : Layer → Layer → Prop) (E : Failure → Failure → Prop)
    (ds : Definitions) (global : Table DefinitionId) (kind : LayerKind) (ds' : Definitions)
    (global' : Table DefinitionId) (scope' : DefinitionId) (kind' : LayerKind)
    (v : Reference) : Prop where
  target : ds'.visible? global' scope' v.name = v.target? ds global
  missing : v.target? ds global = none →
    E (ds.missingFailure v) (ds'.missingFailure { v with scope := scope' })
  cyclic : ∀ t, v.target? ds global = some t → t ∈ v.trail →
    E (ds.cycleFailure v t) (ds'.cycleFailure { v with scope := scope' } t)
  opened : ∀ t definition, v.target? ds global = some t → ds.get? t = some definition →
    ∃ definition', ds'.get? t = some definition' ∧ definition'.applied = definition.applied ∧
      definition'.hooksCallable = definition.hooksCallable ∧
      R (definition.layer kind (some (ds.nameOf v.scope)))
        (definition'.layer kind' (some (ds'.nameOf scope')))

namespace World

variable {w w' : World} {R : Layer → Layer → Prop} {E : Failure → Failure → Prop}
  {global global' : Table DefinitionId} {f scope scope' : DefinitionId}
  {levels levels' trail : List DefinitionId} {kind kind' : LayerKind} {names : List String}
  {vs : List Reference}

/-- **Expansions of references that mean the same agree**, whatever the bounds are, as long as both
leave room for the definitions of the first reading. -/
theorem mapM_expand_agrees (hw : w.definitions.Plain) (hw' : w'.definitions.Plain)
    (ha : Ancestry w.definitions scope levels) (ha' : Ancestry w'.definitions scope' levels')
    (hinvalid : E (Failure.raise .invalidDeclaration) (Failure.raise .invalidDeclaration))
    (hvs : Visits w.definitions global scope trail names vs)
    (hmatch : ∀ v ∈ vs, v.Matches R E w.definitions global kind w'.definitions global' scope' kind')
    (htrail : Trail w.definitions trail) {depth depth' : Nat}
    (hdepth : w.definitions.size < depth + trail.length)
    (hdepth' : w.definitions.size < depth' + trail.length) :
    Agrees (List.Forall₂ (List.Forall₂ R)) E
      ((names.map .text).mapM (w.expand (.own global) scope kind depth trail))
      ((names.map .text).mapM (w'.expand (.own global') scope' kind' depth' trail)) := by
  -- By induction on the visits. Both bounds fall by one wherever the trail gets longer by one.
  induction hvs generalizing depth depth' with
  | nil => exact .ok .nil
  | @missing trail name names rest hv _ ih =>
    have hself := hmatch _ List.mem_cons_self
    have hrest := ih (fun v hmem => hmatch v (List.mem_cons_of_mem _ hmem)) htrail hdepth hdepth'
    refine Agrees.mapM_cons ?_ hrest
    rw [expand_missing hw ha hv, expand_missing hw' ha' (hself.target.trans hv)]
    exact .error (hself.missing hv)
  | @cyclic trail name names rest t hv ht _ ih =>
    have hself := hmatch _ List.mem_cons_self
    have hrest := ih (fun v hmem => hmatch v (List.mem_cons_of_mem _ hmem)) htrail hdepth hdepth'
    refine Agrees.mapM_cons ?_ hrest
    rw [expand_cyclic hw ha hv ht, expand_cyclic hw' ha' (hself.target.trans hv) ht]
    exact .error (hself.cyclic t hv ht)
  | @opened trail name names inner rest t definition hv ht hd hinner hrest ihinner ihrest =>
    have hpush := htrail.push ht hd
    obtain ⟨depth, rfl, hroom⟩ := hpush.room hdepth
    obtain ⟨depth', rfl, hroom'⟩ := hpush.room hdepth'
    have hself := hmatch _ List.mem_cons_self
    obtain ⟨definition', hd', happlied, hcallable, hlayer⟩ := hself.opened t definition hv hd
    have hnested := ihinner
      (fun v hmem => hmatch v (List.mem_cons_of_mem _ (List.mem_append_left _ hmem))) hpush hroom
      hroom'
    have hrest := ihrest
      (fun v hmem => hmatch v (List.mem_cons_of_mem _ (List.mem_append_right _ hmem))) htrail
      hdepth hdepth'
    refine Agrees.mapM_cons ?_ hrest
    rw [expand_opened hw ha hv ht hd, expand_opened hw' ha' (hself.target.trans hv) ht hd',
      happlied, hcallable]
    refine hnested.bind fun parts parts' hparts => ?_
    -- The parts agree; the trait's own layers do, or cannot be made in either reading.
    split
    · exact .ok (List.rel_append (List.rel_flatten hparts) (.cons hlayer .nil))
    · exact .error hinvalid

theorem expandAll_agrees (hw : w.definitions.Plain) (hw' : w'.definitions.Plain)
    (hsize : w.definitions.size ≤ w'.definitions.size)
    (ha : Ancestry w.definitions scope levels) (ha' : Ancestry w'.definitions scope' levels')
    (hinvalid : E (Failure.raise .invalidDeclaration) (Failure.raise .invalidDeclaration))
    (hvs : Visits w.definitions global scope [] names vs)
    (hmatch : ∀ v ∈ vs,
      v.Matches R E w.definitions global kind w'.definitions global' scope' kind') :
    Agrees (List.Forall₂ R) E (w.expandAll (.own global) scope kind (names.map .text))
      (w'.expandAll (.own global') scope' kind' (names.map .text)) := by
  have hroom : w.definitions.size < w.expansionDepth := Nat.lt_succ_self _
  have hroom' : w.definitions.size < w'.expansionDepth := Nat.lt_succ_of_le hsize
  have hparts := mapM_expand_agrees hw hw' ha ha' hinvalid hvs hmatch .nil hroom hroom'
  exact hparts.bind fun parts parts' hparts => .ok (List.rel_flatten hparts)

end World

/-! ## 3. Compilations that are not affected -/

/-- **Definitions that contribute the same** to whatever is compiled from them. -/
structure Definition.Alike (d d' : Definition) : Prop where
  applied : d'.applied = d.applied
  layer : ∀ kind scope, d'.layer kind scope = d.layer kind scope
  model : d'.template.map (·.model) = d.template.map (·.model)

namespace Definition.Alike

variable {d d' : Definition}

theorem refl (d : Definition) : d.Alike d := ⟨rfl, fun _ _ => rfl, rfl⟩

theorem name (h : d.Alike d') : d'.name = d.name :=
  congrArg Layer.name (h.layer .trait none)

theorem hooksCallable (h : d.Alike d') : d'.hooksCallable = d.hooksCallable := by
  have hlayer := h.layer .trait none
  have hconstructor : d'.constructor = d.constructor := congrArg Layer.constructor hlayer
  have hpersistor : d'.persistor = d.persistor := congrArg Layer.persistor hlayer
  rw [Definition.hooksCallable, Definition.hooksCallable, hconstructor, hpersistor]

end Definition.Alike

namespace Definitions

/-- What is read of a definition is the same in two stores. -/
def SameAt (ds ds' : Definitions) (d : DefinitionId) : Prop :=
  ∀ definition, ds.get? d = some definition →
    ∃ definition', ds'.get? d = some definition' ∧ definition.Alike definition'

theorem SameAt.nameOf {ds ds' : Definitions} {d : DefinitionId} (h : ds.SameAt ds' d)
    {definition : Definition} (hd : ds.get? d = some definition) :
    ds'.nameOf d = ds.nameOf d := by
  obtain ⟨definition', hd', halike⟩ := h definition hd
  simp only [Definitions.nameOf, hd, hd', Option.map_some, Option.getD_some, halike.name]

end Definitions

namespace World

variable {w w' : World} {global global' : Table DefinitionId} {f scope : DefinitionId}
  {levels older : List DefinitionId} {kind : LayerKind} {names : List String}
  {vs : List Reference}

/-- A reference that resolves the same means the same where what is read is the same. -/
theorem matches_of_sameAt (hstocked : w.definitions.Stocked global)
    (ha : Ancestry w.definitions f levels)
    (hsame : ∀ d, w.definitions.Reads global levels d → w.definitions.SameAt w'.definitions d)
    {v : Reference} (hscope : v.scope ∈ levels)
    (htrail : ∀ t ∈ v.trail, ∃ name, w.definitions.visible? global v.scope name = some t)
    (htarget : v.target? w'.definitions global' = v.target? w.definitions global) :
    v.Matches Eq Eq w.definitions global kind w'.definitions global' v.scope kind := by
  obtain ⟨_, ht⟩ := ha.template?_isSome hscope
  obtain ⟨_, hd, _⟩ := Definitions.get?_of_template? ht
  have hscopeName := (hsame v.scope (.inl hscope)).nameOf hd
  -- The traits around the reference are visible from its scope, and so is its own.
  have hname : ∀ t, (∃ name, w.definitions.visible? global v.scope name = some t) →
      w'.definitions.nameOf t = w.definitions.nameOf t := by
    rintro t ⟨name, hv⟩
    obtain ⟨_, hd⟩ := hstocked v.scope name t hv
    exact (hsame t (.inr ⟨v.scope, hscope, name, hv⟩)).nameOf hd
  refine ⟨htarget, fun _ => ?_, fun t hv _ => ?_, fun t definition hv hd => ?_⟩
  · have hlast : v.trail.getLast?.map w'.definitions.nameOf =
        v.trail.getLast?.map w.definitions.nameOf :=
      Option.map_congr fun t ht => hname t (htrail t (List.mem_of_getLast? ht))
    rw [Definitions.missingFailure, Definitions.missingFailure, hlast, hscopeName]
  · have hnames : (v.trail ++ [t]).map w'.definitions.nameOf =
        (v.trail ++ [t]).map w.definitions.nameOf := by
      refine List.map_congr_left fun u hu => hname u ?_
      obtain hu | hu := List.mem_append.mp hu
      · exact htrail u hu
      · exact List.mem_singleton.mp hu ▸ ⟨_, hv⟩
    rw [Definitions.cycleFailure, Definitions.cycleFailure, hnames, hscopeName]
  · obtain ⟨definition', hd', halike⟩ := hsame t (.inr ⟨v.scope, hscope, _, hv⟩) definition hd
    refine ⟨definition', hd', halike.applied, halike.hooksCallable, ?_⟩
    rw [hscopeName, halike.layer]

/-- The model of a factory is a matter of what is read of its levels. -/
theorem model?_eq_of_sameAt {ds ds' : Definitions} (ha : Ancestry ds f levels)
    (ha' : Ancestry ds' f levels) (hsame : ∀ l ∈ levels, ds.SameAt ds' l) :
    ds'.model? f = ds.model? f := by
  have hlevel : ∀ l ∈ levels, ((ds'.template? l).bind fun t => t.model.hook?) =
      (ds.template? l).bind fun t => t.model.hook? := by
    intro l hl
    obtain ⟨t, ht⟩ := ha.template?_isSome hl
    obtain ⟨definition, hd, htemplate⟩ := Definitions.get?_of_template? ht
    obtain ⟨definition', hd', halike⟩ := hsame l hl definition hd
    have hmodel := halike.model
    rw [htemplate, Option.map_some, Option.map_eq_some_iff] at hmodel
    obtain ⟨t', ht', hmodel⟩ := hmodel
    simp only [Definitions.template?, hd, hd', Option.bind_some, htemplate, ht', hmodel]
  unfold Definitions.model?
  rw [Definitions.levels_of_ancestry ha, Definitions.levels_of_ancestry ha',
    ← List.head?_filterMap, ← List.head?_filterMap, List.filterMap_congr hlevel]

section Same

-- Everything that a compilation reads is the same in both worlds.
variable (hw : w.definitions.Plain) (hw' : w'.definitions.Plain)
  (hsize : w.definitions.size ≤ w'.definitions.size) (hstocked : w.definitions.Stocked global)
  (ha : Ancestry w.definitions f levels) (ha' : Ancestry w'.definitions f levels)
  (hsame : ∀ d, w.definitions.Reads global levels d → w.definitions.SameAt w'.definitions d)
include hw hw' hsize hstocked ha ha' hsame

/-- What is expanded from a level is the same where everything that is read is the same. -/
theorem expandAll_eq_of_sameAt (kind : LayerKind) (hscope : scope ∈ levels)
    (hvs : Visits w.definitions global scope [] names vs)
    (htarget : ∀ v ∈ vs, v.target? w'.definitions global' = v.target? w.definitions global) :
    w'.expandAll (.own global') scope kind (names.map .text) =
      w.expandAll (.own global) scope kind (names.map .text) := by
  obtain ⟨_, hscopeAncestry, _⟩ := ha.of_mem hscope
  obtain ⟨_, hscopeAncestry', _⟩ := ha'.of_mem hscope
  have hmatch : ∀ v ∈ vs,
      v.Matches Eq Eq w.definitions global kind w'.definitions global' scope kind := by
    intro v hmem
    obtain rfl := hvs.scope_eq hmem
    exact matches_of_sameAt hstocked ha hsame hscope
      (hvs.visible_of_trail (fun _ h => nomatch h) hmem) (htarget v hmem)
  have hagrees := expandAll_agrees hw hw' hsize hscopeAncestry hscopeAncestry' rfl hvs hmatch
  exact (hagrees.imp fun _ _ h => List.forall₂_eq_eq_eq ▸ h).eq.symm

theorem levelLayers_eq_of_sameAt (hscope : scope ∈ levels) {definition : Definition}
    (hd : w.definitions.get? scope = some definition)
    (hvs : Visits w.definitions global scope [] definition.applied vs)
    (htarget : ∀ v ∈ vs, v.target? w'.definitions global' = v.target? w.definitions global) :
    w'.levelLayers (.own global') scope = w.levelLayers (.own global) scope := by
  obtain ⟨_, hscopeAncestry, _⟩ := ha.of_mem hscope
  obtain ⟨_, hscopeAncestry', _⟩ := ha'.of_mem hscope
  obtain ⟨definition', hd', halike⟩ := hsame scope (.inl hscope) definition hd
  -- The level's traits come to the same, and so does its own layer.
  rw [levelLayers_plain hw hscopeAncestry hd, levelLayers_plain hw' hscopeAncestry' hd',
    halike.applied, halike.hooksCallable, halike.layer,
    expandAll_eq_of_sameAt hw hw' hsize hstocked ha ha' hsame .trait hscope hvs htarget]

theorem staticLayers_eq_of_sameAt (holder : older ⊆ levels)
    (hvs : VisitsLevels w.definitions global older vs)
    (htarget : ∀ v ∈ vs, v.target? w'.definitions global' = v.target? w.definitions global) :
    w'.staticLayers (.own global') (.ok []) older =
      w.staticLayers (.own global) (.ok []) older := by
  induction hvs with
  | nil => rfl
  | level hd _ hown ih =>
    have habove := ih (fun l hl => holder (List.mem_cons_of_mem _ hl))
      fun v hmem => htarget v (List.mem_append_left _ hmem)
    have hlevel := levelLayers_eq_of_sameAt hw hw' hsize hstocked ha ha' hsame
      (holder List.mem_cons_self) hd hown fun v hmem => htarget v (List.mem_append_right _ hmem)
    simp only [staticLayers, habove, hlevel]

/-- **A compilation is not affected** by whatever happens to definitions that it does not read, as
long as every visited reference resolves as before: it comes to the same plan or failure. -/
theorem compile_eq_of_sameAt (hvs : Visited w.definitions global f names vs)
    (htarget : ∀ v ∈ vs, v.target? w'.definitions global' = v.target? w.definitions global) :
    w'.compile (.own global') f names = w.compile (.own global) f names := by
  obtain ⟨levels', above, own, ha'', habove, hown, rfl⟩ := hvs
  obtain rfl := ha.unique ha''
  have hstatic := staticLayers_eq_of_sameAt hw hw' hsize hstocked ha ha' hsame
    (fun _ hl => hl) habove fun v hmem => htarget v (List.mem_append_left _ hmem)
  have hdynamic := expandAll_eq_of_sameAt hw hw' hsize hstocked ha ha' hsame .dynamicTrait ha.mem
    hown fun v hmem => htarget v (List.mem_append_right _ hmem)
  have hmodel := model?_eq_of_sameAt ha ha' fun l hl => hsame l (.inl hl)
  obtain ⟨t, ht⟩ := ha.template?_self
  obtain ⟨definition, hd, _⟩ := Definitions.get?_of_template? ht
  rw [compile_plain hw ha, compile_plain hw' ha', hstatic, hdynamic, hmodel,
    (hsame f (.inl ha.mem)).nameOf hd]

end Same

end World

end TraitFactory
