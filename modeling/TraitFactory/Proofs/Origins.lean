import TraitFactory.Proofs.Developing
import TraitFactory.Proofs.Merging

/-!
# Where the parts of a plan come from

Every layer of a plan is the layer of a definition, as the definition was when the layer was made;
later the definition may have been changed, and the layer kept by a cache. But what a definition
declares bears its label, which never changes, and a callback is an object of its own, which stands
in one definition only. So the origin of a declaration in a plan tells the definition behind the
layer that it comes from, whatever has happened since.
-/

namespace TraitFactory

/-! ## 1. Layers of definitions -/

/-- Each of the results of a list is the result of something. -/
theorem exists_of_mem_mapM {α β ε : Type} {f : α → Except ε β} {xs : List α} {ys : List β}
    (h : xs.mapM f = .ok ys) {y : β} (hy : y ∈ ys) : ∃ x, f x = .ok y := by
  have hresults := mapM_eq_ok_iff.mp h
  induction hresults with
  | nil => cases hy
  | cons hx hrest ih =>
    obtain rfl | hy := List.mem_cons.mp hy
    · exact ⟨_, hx⟩
    · exact ih (mapM_eq_ok_iff.mpr hrest) hy

namespace Definitions

variable {ds : Definitions} {global : Table DefinitionId} {scope f : DefinitionId}
  {kind : LayerKind} {layers : List Layer}

/-- **A layer of a definition that is there**, as it is now. -/
def Draws (ds : Definitions) (d : DefinitionId) (l : Layer) : Prop :=
  ∃ x, ds.get? d = some x ∧ l = x.layer l.kind l.scope

end Definitions

namespace World

variable {w : World} {global : Table DefinitionId} {scope f : DefinitionId} {kind : LayerKind}
  {layers : List Layer}

/-- The layer that is read off a plain definition is its own. -/
theorem draws_layerOf (hw : w.definitions.Plain) {d : DefinitionId} {x : Definition}
    (hd : w.definitions.get? d = some x) {named : Option String} {l : Layer}
    (h : w.layerOf x kind named = .ok l) : w.definitions.Draws d l := by
  rw [layerOf_plain (hw d x hd)] at h
  split at h
  · cases h
    exact ⟨x, hd, rfl⟩
  · cases h

theorem draws_expand (hw : w.definitions.Plain) {depth : Nat} {trail : List DefinitionId}
    {ref : Value} (h : w.expand (.own global) scope kind depth trail ref = .ok layers) :
    ∀ l ∈ layers, ∃ d, w.definitions.Draws d l := by
  induction depth generalizing trail ref layers with
  | zero => exact absurd h (expand_zero_ne_ok _ _)
  | succ depth ih =>
    rw [expand_succ] at h
    obtain ⟨t, -, h⟩ := bind_eq_ok_iff.mp h
    split at h
    · cases h
    rcases hd : w.definitions.get? t with _ | x <;> rw [hd] at h
    · cases h
    obtain ⟨refs, -, h⟩ := bind_eq_ok_iff.mp h
    obtain ⟨nested, hnested, h⟩ := bind_eq_ok_iff.mp h
    obtain ⟨named, -, h⟩ := bind_eq_ok_iff.mp h
    obtain ⟨own, hown, h⟩ := bind_eq_ok_iff.mp h
    cases h
    intro l hl
    -- A layer is one of the traits that are applied, or the trait's own.
    obtain hl | hl := List.mem_append.mp hl
    · obtain ⟨part, hpart, hl⟩ := List.mem_flatten.mp hl
      obtain ⟨ref', href⟩ := exists_of_mem_mapM hnested hpart
      exact ih href l hl
    · obtain rfl := List.mem_singleton.mp hl
      exact ⟨t, draws_layerOf hw hd hown⟩

theorem draws_expandAll (hw : w.definitions.Plain) {refs : List Value}
    (h : w.expandAll (.own global) scope kind refs = .ok layers) :
    ∀ l ∈ layers, ∃ d, w.definitions.Draws d l := by
  obtain ⟨parts, hparts, h⟩ := bind_eq_ok_iff.mp h
  cases h
  intro l hl
  obtain ⟨part, hpart, hl⟩ := List.mem_flatten.mp hl
  obtain ⟨ref, href⟩ := exists_of_mem_mapM hparts hpart
  exact draws_expand hw href l hl

theorem draws_levelLayers (hw : w.definitions.Plain) {level : DefinitionId}
    (h : w.levelLayers (.own global) level = .ok layers) :
    ∀ l ∈ layers, ∃ d, w.definitions.Draws d l := by
  unfold levelLayers at h
  rcases hd : w.definitions.get? level with _ | x <;> rw [hd] at h
  · cases h
  dsimp only at h
  split at h
  · cases h
  obtain ⟨refs, -, h⟩ := bind_eq_ok_iff.mp h
  obtain ⟨traits, htraits, h⟩ := bind_eq_ok_iff.mp h
  obtain ⟨own, hown, h⟩ := bind_eq_ok_iff.mp h
  cases h
  intro l hl
  obtain hl | hl := List.mem_append.mp hl
  · exact draws_expandAll hw htraits l hl
  · obtain rfl := List.mem_singleton.mp hl
    exact ⟨level, draws_layerOf hw hd hown⟩

end World

/-- **A compilation makes layers of definitions that are there**, and of nothing else. -/
theorem Definitions.provides_draws {ds : Definitions} (h : ds.Plain) (global : Table DefinitionId)
    (f : DefinitionId) :
    ds.Provides (fun l => ∃ d, ds.Draws d l) (fun _ => True) global f where
  foundation := by
    refine ⟨fun layers hlayers l hl => ?_, fun _ _ => trivial⟩
    unfold Definitions.foundation at hlayers
    split at hlayers
    · cases hlayers
      cases hl
    · cases hlayers
  levels w hw level _ := by
    subst hw
    exact ⟨fun _ hlayers => World.draws_levelLayers h hlayers, fun _ _ => trivial⟩
  calls w hw refs := by
    subst hw
    exact ⟨fun _ hlayers => World.draws_expandAll h hlayers, fun _ _ => trivial⟩
  lost := trivial

/-! ## 2. Labels and callbacks -/

namespace Definition

/-- The callbacks that a definition has itself. -/
def ownCallbacks (d : Definition) : List Callback := d.callbacks.own?.getD []

/-- **All that a definition declares bears its label.** -/
def Labelled (d : Definition) : Prop :=
  ∀ declaration ∈ d.ownAttributes.declarations, declaration.origin = d.label

/-- **A definition after further declarations**: it has its label, and its callbacks still. -/
structure Continues (d d' : Definition) : Prop where
  label : d'.label = d.label
  callbacks : d.ownCallbacks <+: d'.ownCallbacks

/-- A definition without declarations and callbacks. -/
structure Bare (d : Definition) : Prop where
  attributes : d.ownAttributes.declarations = []
  callbacks : d.ownCallbacks = []

theorem Continues.refl (d : Definition) : d.Continues d := ⟨rfl, List.prefix_rfl⟩

theorem Continues.trans {d d' d'' : Definition} (h : d.Continues d') (h' : d'.Continues d'') :
    d.Continues d'' :=
  ⟨h'.label.trans h.label, h.callbacks.trans h'.callbacks⟩

/-- A factory stays one when its template is changed, and keeps its label. -/
theorem label_modifyTemplate (d : Definition) (f : Template → Template) :
    (d.modifyTemplate f).label = d.label := by
  have hfactory : (d.modifyTemplate f).isFactory = d.isFactory := Option.isSome_map
  unfold label kind
  rw [hfactory]
  rfl

/-- A declaration that bears the label may be made. -/
theorem Labelled.declare {d : Definition} (h : d.Labelled) {declaration : Declaration}
    (horigin : declaration.origin = d.label) :
    Labelled { d with attributes := d.attributes.modify (·.declare declaration) } := by
  intro other hother
  unfold Labelled ownAttributes at h
  unfold ownAttributes at hother
  rcases hs : d.attributes with s | v <;> simp only [hs] at h hother
  · obtain ⟨entry, hentry, rfl⟩ := List.mem_map.mp hother
    obtain hnew | hold := AttributeSet.eq_of_mem_insertEntry hentry
    · exact hnew ▸ horigin
    · exact h entry.2 (List.mem_map.mpr ⟨entry, hold, rfl⟩)
  · exact h other hother

end Definition

namespace World

/-- **What an edit does to definitions**: one of them may get callbacks, which are new objects; all
keep their labels and whatever callbacks they have, and go on bearing labels as they did. -/
structure Alters (w : World) (d : DefinitionId) (new : List Callback) (w' : World) : Prop where
  heap : w.heap.size ≤ w'.heap.size
  fresh : ∀ c ∈ new, w.heap.size ≤ c.object.index ∧ c.object.index < w'.heap.size
  distinct : (new.map (·.object)).Nodup
  kept : ∀ e x, w.definitions.get? e = some x → ∃ x', w'.definitions.get? e = some x' ∧
    x'.label = x.label ∧ x'.ownCallbacks = x.ownCallbacks ++ (if e = d then new else []) ∧
    (x.Labelled → x'.Labelled)
  made : ∀ e x', w'.definitions.get? e = some x' → w.definitions.get? e = none → x'.Bare

variable {w w' : World} {d : DefinitionId} {new : List Callback}

/-- Definitions need not be altered at all. -/
theorem alters_of_eq (hdefinitions : w'.definitions = w.definitions)
    (hheap : w.heap.size ≤ w'.heap.size) : w.Alters ⟨0⟩ [] w' where
  heap := hheap
  fresh _ hc := by cases hc
  distinct := .nil
  kept e x he := ⟨x, hdefinitions ▸ he, rfl, by simp, id⟩
  made e x' hx' he := by
    rw [hdefinitions, he] at hx'
    cases hx'

theorem alters_making {x : Definition} (hbare : x.Bare) : w.Alters ⟨0⟩ [] (w.making x) where
  heap := Nat.le_refl _
  fresh _ hc := by cases hc
  distinct := .nil
  kept e y he := ⟨y, (Definitions.growsTo_push _ _).2 e y he, rfl, by simp, id⟩
  made e y hy he := by
    have hpush : (w.definitions.push x).get? e = some y := hy
    rw [Definitions.get?_push, he] at hpush
    split at hpush
    · cases hpush
      exact hbare
    · cases hpush

/-- One definition is changed. -/
theorem alters_modify {h : Heap} {f : Definition → Definition}
    (hheap : w.heap.size ≤ h.size)
    (hfresh : ∀ c ∈ new, w.heap.size ≤ c.object.index ∧ c.object.index < h.size)
    (hdistinct : (new.map (·.object)).Nodup)
    (hf : ∀ x, w.definitions.get? d = some x → (f x).label = x.label ∧
      (f x).ownCallbacks = x.ownCallbacks ++ new ∧ (x.Labelled → (f x).Labelled)) :
    w.Alters d new (World.modifyDefinition { w with heap := h } d f) where
  heap := hheap
  fresh := hfresh
  distinct := hdistinct
  kept e x he := by
    have hget := Definitions.get?_modify w.definitions d f e
    rw [he] at hget
    split at hget
    · subst e
      obtain ⟨hlabel, hcallbacks, hlabelled⟩ := hf x he
      exact ⟨f x, hget, hlabel, by rw [if_pos rfl, hcallbacks], hlabelled⟩
    · rename_i hne
      exact ⟨x, hget, rfl, by rw [if_neg fun h => hne h.symm, List.append_nil], id⟩
  made e x' hx' he := by
    have hget : (w.definitions.modify d f).get? e = some x' := hx'
    rw [Definitions.get?_modify, he] at hget
    split at hget <;> cases hget

/-- **Every edit alters definitions in this way only.** -/
theorem Edit.alters (hw : w.definitions.Plain) (h : w.Edit w') : ∃ d new, w.Alters d new w' := by
  -- A change after which a definition has the same label, callbacks and attributes.
  have hsame : ∀ (d : DefinitionId) (f : Definition → Definition), (∀ x, (f x).label = x.label ∧
      (f x).ownCallbacks = x.ownCallbacks ∧ (f x).ownAttributes = x.ownAttributes) →
      w.Alters d [] (w.modifyDefinition d f) := by
    intro d f hf
    refine alters_modify (h := w.heap) (Nat.le_refl _) (fun _ hc => by cases hc) .nil fun x _ => ?_
    obtain ⟨hlabel, hcallbacks, hattributes⟩ := hf x
    refine ⟨hlabel, by rw [hcallbacks, List.append_nil], fun hx => ?_⟩
    unfold Definition.Labelled
    rwa [hattributes, hlabel]
  have hregistry : ∀ r f, w.Alters ⟨0⟩ [] (w.modifyRegistry r f) := fun r f =>
    alters_of_eq rfl (Nat.le_refl _)
  cases h with
  | retained h => exact ⟨_, _, alters_of_eq h.definitions h.heap⟩
  | trait name => exact ⟨_, _, alters_making ⟨rfl, rfl⟩⟩
  | factory name applied model _ => exact ⟨_, _, alters_making ⟨rfl, rfl⟩⟩
  | @declared d x declaration hd horigin =>
    refine ⟨d, [], alters_modify (h := w.heap) (Nat.le_refl _) (fun _ hc => by cases hc) .nil
      fun y hy => ⟨rfl, (List.append_nil _).symm, fun hlabelled => hlabelled.declare ?_⟩⟩
    rw [horigin, Option.some.inj (hd.symm.trans hy)]
  | applied d name => exact ⟨_, _, hsame d _ fun _ => ⟨rfl, rfl, rfl⟩⟩
  | hooked d constructor persistor => exact ⟨_, _, hsame d _ fun _ => ⟨rfl, rfl, rfl⟩⟩
  | @called d x c heap hd howner hfresh hplaced =>
    have hnew : ∀ c' ∈ [c], w.heap.size ≤ c'.object.index ∧ c'.object.index < heap.size := by
      intro c' hc'
      obtain rfl := List.mem_singleton.mp hc'
      exact ⟨hfresh, hplaced⟩
    refine ⟨d, [c], alters_modify (by omega) hnew (List.nodup_singleton _) fun y hy => ?_⟩
    obtain ⟨cs, hcs⟩ := (hw d y hy).callbacks
    exact ⟨rfl, by simp [Definition.ownCallbacks, hcs], id⟩
  | locally => exact ⟨_, _, hsame _ _ fun x => ⟨x.label_modifyTemplate _, rfl, rfl⟩⟩
  | globally => exact ⟨_, _, hregistry _ _⟩
  | enrolled => exact ⟨_, _, hregistry _ _⟩
  | noFactories => exact ⟨_, _, hregistry _ _⟩
  | noTraits => exact ⟨_, _, hregistry _ _⟩

/-- **A world in which definitions tell what belongs to them**: what they declare bears their labels,
and each callback is an object that stands in one definition, once. -/
structure Marked (w : World) : Prop where
  labelled : ∀ d x, w.definitions.get? d = some x → x.Labelled
  placed : ∀ d x, w.definitions.get? d = some x → ∀ c ∈ x.ownCallbacks,
    c.object.index < w.heap.size
  distinct : ∀ d x, w.definitions.get? d = some x → (x.ownCallbacks.map (·.object)).Nodup
  apart : ∀ d e x y, w.definitions.get? d = some x → w.definitions.get? e = some y →
    ∀ c ∈ x.ownCallbacks, ∀ c' ∈ y.ownCallbacks, c.object = c'.object → d = e

/-- What stands in a definition after an edit stood there before, or is new. -/
theorem Alters.of_mem (h : w.Alters d new w') {e : DefinitionId} {x' : Definition}
    (he : w'.definitions.get? e = some x') {c : Callback} (hc : c ∈ x'.ownCallbacks) :
    (∃ x, w.definitions.get? e = some x ∧ c ∈ x.ownCallbacks) ∨ e = d ∧ c ∈ new := by
  rcases hold : w.definitions.get? e with _ | x
  · rw [(h.made e x' he hold).callbacks] at hc
    cases hc
  · obtain ⟨x'', he', -, hcallbacks, -⟩ := h.kept e x hold
    obtain rfl := Option.some.inj (he.symm.trans he')
    rw [hcallbacks] at hc
    obtain hc | hc := List.mem_append.mp hc
    · exact .inl ⟨x, rfl, hc⟩
    · split at hc
      · exact .inr ⟨‹_›, hc⟩
      · cases hc

/-- **Edits keep the marks.** -/
theorem Marked.altered (hw : w.Marked) (h : w.Alters d new w') : w'.Marked where
  labelled e x' he := by
    rcases hold : w.definitions.get? e with _ | x
    · intro declaration hdeclaration
      rw [(h.made e x' he hold).attributes] at hdeclaration
      cases hdeclaration
    · obtain ⟨x'', he', -, -, hlabelled⟩ := h.kept e x hold
      obtain rfl := Option.some.inj (he.symm.trans he')
      exact hlabelled (hw.labelled e x hold)
  placed e x' he c hc := by
    obtain ⟨x, hx, hc⟩ | ⟨-, hc⟩ := h.of_mem he hc
    · exact Nat.lt_of_lt_of_le (hw.placed e x hx c hc) h.heap
    · exact (h.fresh c hc).2
  distinct e x' he := by
    rcases hold : w.definitions.get? e with _ | x
    · rw [(h.made e x' he hold).callbacks]
      exact .nil
    · obtain ⟨x'', he', -, hcallbacks, -⟩ := h.kept e x hold
      obtain rfl := Option.some.inj (he.symm.trans he')
      rw [hcallbacks, List.map_append]
      refine (hw.distinct e x hold).append ?_ ?_
      · split
        · exact h.distinct
        · exact .nil
      · -- New callbacks stand behind all objects that are there.
        intro o ho ho'
        obtain ⟨c, hc, rfl⟩ := List.mem_map.mp ho
        obtain ⟨c', hc', hobject⟩ := List.mem_map.mp ho'
        have hlt := hw.placed e x hold c hc
        split at hc'
        · have hle := (h.fresh c' hc').1
          rw [hobject] at hle
          omega
        · cases hc'
  apart e e' x' y' he he' c hc c' hc' hobject := by
    obtain ⟨x, hx, hc⟩ | ⟨rfl, hc⟩ := h.of_mem he hc <;>
      obtain ⟨y, hy, hc'⟩ | ⟨rfl, hc'⟩ := h.of_mem he' hc'
    · exact hw.apart e e' x y hx hy c hc c' hc' hobject
    · have hlt := hw.placed e x hx c hc
      have hle := (h.fresh c' hc').1
      rw [hobject] at hlt
      omega
    · have hlt := hw.placed e' y hy c' hc'
      have hle := (h.fresh c hc).1
      rw [hobject] at hle
      omega
    · rfl

theorem Blank.marked (h : w.Blank) : w.Marked := by
  have hnone : ∀ d x, w.definitions.get? d ≠ some x := fun d x hd => by
    rw [h.definitions, get?_empty_definitions] at hd
    cases hd
  exact ⟨fun d x hd => absurd hd (hnone d x), fun d x hd => absurd hd (hnone d x),
    fun d x hd => absurd hd (hnone d x), fun d _ x _ hd => absurd hd (hnone d x)⟩

/-- Each definition goes on with its label and its callbacks. -/
def Continued (w w' : World) : Prop :=
  ∀ d x, w.definitions.get? d = some x →
    ∃ x', w'.definitions.get? d = some x' ∧ x.Continues x'

theorem Alters.continued (h : w.Alters d new w') : w.Continued w' := by
  intro e x he
  obtain ⟨x', he', hlabel, hcallbacks, -⟩ := h.kept e x he
  exact ⟨x', he', hlabel, hcallbacks ▸ List.prefix_append _ _⟩

theorem continued_of_eq (h : w'.definitions = w.definitions) : w.Continued w' :=
  fun _ x hx => ⟨x, h ▸ hx, .refl x⟩

theorem Continued.trans {w'' : World} (h : w.Continued w') (h' : w'.Continued w'') :
    w.Continued w'' := by
  intro d x hx
  obtain ⟨x', hx', hcontinues⟩ := h d x hx
  obtain ⟨x'', hx'', hcontinues'⟩ := h' d x' hx'
  exact ⟨x'', hx'', hcontinues.trans hcontinues'⟩

variable {w₀ : World}

/-- **Wherever steps lead**, definitions tell what belongs to them, and go on as they were. -/
theorem Marked.advanced (hw : w₀.Ordinary) (hmarked : w₀.Marked) (h : w₀.Advanced w) :
    w.Marked ∧ w₀.Continued w := by
  refine h.induction (I := fun w => w.Marked ∧ w₀.Continued w) hw
    ⟨hmarked, continued_of_eq rfl⟩ (fun w w' hw hedit hI => ?_)
    fun w r factory traits hw hI hthere => ?_ <;> obtain ⟨hm, hc⟩ := hI
  · obtain ⟨d, new, halters⟩ := hedit.alters hw.definitions
    exact ⟨hm.altered halters, hc.trans halters.continued⟩
  · obtain ⟨reg, hreg⟩ := hthere
    have hbesides := Action.besides_compile (hw.neat hreg) factory traits
    have halters := alters_of_eq hbesides.definitions hbesides.heap
    exact ⟨hm.altered halters, hc.trans halters.continued⟩

/-! ## 3. What stands behind a layer -/

/-- **A definition stands behind a layer** when the layer was its own at some time since a world:
steps led to a time at which it was, and further ones from there on. -/
def Backs (w₀ w : World) (d : DefinitionId) (l : Layer) : Prop :=
  ∃ w₁, w₀.Advanced w₁ ∧ w₁.Advanced w ∧ w₁.definitions.Draws d l

theorem Backs.advanced {l : Layer} (h : Backs w₀ w d l) (hsteps : w.Advanced w') :
    Backs w₀ w' d l := by
  obtain ⟨w₁, hbefore, hafter, hdraws⟩ := h
  exact ⟨w₁, hbefore, hafter.trans hsteps, hdraws⟩

/-- What stands behind a layer is still there, with the label and the callbacks that it had. -/
theorem Backs.continues (hw : w₀.Ordinary) (hmarked : w₀.Marked) {l : Layer}
    (h : Backs w₀ w d l) : ∃ x, w.definitions.get? d = some x ∧
      (∀ declaration ∈ l.attributes, declaration.origin = x.label) ∧
      ∀ c ∈ l.callbacks, c ∈ x.ownCallbacks := by
  obtain ⟨w₁, hbefore, hafter, y, hy, hl⟩ := h
  have hmarked₁ := (hmarked.advanced hw hbefore).1
  obtain ⟨x, hx, hcontinues⟩ := (hmarked₁.advanced (hw.advanced hbefore) hafter).2 d y hy
  rw [hl]
  refine ⟨x, hx, fun declaration hdeclaration => ?_, fun c hc => ?_⟩
  · rw [hcontinues.label]
    exact hmarked₁.labelled d y hy declaration hdeclaration
  · obtain ⟨e, -, hc⟩ := List.mem_flatMap.mp hc
    exact hcontinues.callbacks.subset (List.mem_filter.mp hc).1

/-- **All that caches hold was made of definitions** that stand behind it. -/
def Traceable (w₀ w : World) : Prop :=
  ∀ r reg, w.registryAt? r = some reg → reg.cache.MadeOf (fun l => ∃ d, Backs w₀ w d l) w

/-- Edits put nothing into caches. -/
theorem Edit.madeOf {P : Layer → Prop} (h : w.Edit w')
    (hw : ∀ r reg, w.registryAt? r = some reg → reg.cache.MadeOf P w) :
    ∀ r reg, w'.registryAt? r = some reg → reg.cache.MadeOf P w' := by
  -- Of most edits it is plain that plans stay, and caches.
  have hsame : ∀ {w₁ : World}, w₁.plans = w.plans → (∀ r reg, w₁.registryAt? r = some reg →
      ∃ reg', w.registryAt? r = some reg' ∧ reg.cache = reg'.cache) →
      ∀ r reg, w₁.registryAt? r = some reg → reg.cache.MadeOf P w₁ := by
    intro w₁ hplans hcache r reg hreg
    obtain ⟨reg', hreg', hc⟩ := hcache r reg hreg
    rw [hc]
    exact (hw r reg' hreg').mono (fun _ hl => hl) fun p s hs => by rwa [stored?, hplans]
  have hdefinition : ∀ {w₁ : World}, w₁.plans = w.plans → w₁.registries = w.registries →
      ∀ r reg, w₁.registryAt? r = some reg → reg.cache.MadeOf P w₁ := by
    intro w₁ hplans hregistries
    refine hsame hplans fun r reg hreg => ⟨reg, ?_, rfl⟩
    rwa [registryAt?, hregistries] at hreg
  have hregistry : ∀ (q : RegistryId) {f : Registry → Registry},
      (∀ reg, (f reg).cache = reg.cache) → ∀ r reg,
      (w.modifyRegistry q f).registryAt? r = some reg → reg.cache.MadeOf P (w.modifyRegistry q f) := by
    intro q f hf
    refine hsame rfl fun r reg hreg => ?_
    rw [registryAt?_modify] at hreg
    split at hreg
    · obtain ⟨reg', hreg', rfl⟩ := Option.map_eq_some_iff.mp hreg
      exact ⟨reg', hreg', hf reg'⟩
    · exact ⟨reg, hreg, rfl⟩
  cases h with
  | retained h =>
    intro r reg' hreg'
    have hfollows := h.follows r reg' hreg'
    rcases hreg : w.registryAt? r with _ | reg <;> rw [hreg] at hfollows
    · -- A registry that was not there before has nothing in its cache.
      refine ⟨fun name layers hl => ?_, fun key p hp => ?_⟩
      · cases hfollows.shared name layers hl
      · cases hfollows.plans key p hp
    · refine ⟨fun name layers hl => ?_, fun key p hp => ?_⟩
      · exact (hw r reg hreg).shared name layers (hfollows.shared name layers hl)
      · exact ((hw r reg hreg).plans key p (hfollows.plans key p hp)).mono (fun _ hl => hl) h.plans
  | trait | factory | declared | applied | hooked | called | locally => exact hdefinition rfl rfl
  | globally => exact hregistry _ fun _ => rfl
  | enrolled => exact hregistry _ fun _ => rfl
  | noFactories => exact hregistry _ fun _ => rfl
  | noTraits => exact hregistry _ fun _ => rfl

theorem Edited.madeOf {P : Layer → Prop} (h : w.Edited w')
    (hw : ∀ r reg, w.registryAt? r = some reg → reg.cache.MadeOf P w) :
    ∀ r reg, w'.registryAt? r = some reg → reg.cache.MadeOf P w' := by
  induction h with
  | refl => exact hw
  | tail _ hedit ih => exact hedit.madeOf ih

/-- **A compilation in a traceable world**: its plan is made of layers that definitions stand
behind, and so is all that the registry keeps. -/
theorem Traceable.compile {r : RegistryId} {reg : Registry} (h : Traceable w₀ w)
    (hw : w.Ordinary) (hrun : w₀.Advanced w) (hreg : w.registryAt? r = some reg) (factory : Value)
    (traits : Option Value) : ∀ outcome w',
      (Action.compile r factory traits).execute w = (outcome, w') →
      Traceable w₀ w' ∧ ∀ p, outcome = .ok p → w'.Stores (fun l => ∃ d, Backs w₀ w' d l) p := by
  intro outcome w' hexec
  have hstep : w.Advanced w' := by
    have hcompiled := Advance.compiled (w := w) r factory traits
    rw [hexec] at hcompiled
    exact .single hcompiled
  have hbacks : ∀ l, (∃ d, Backs w₀ w d l) → ∃ d, Backs w₀ w' d l := by
    rintro l ⟨d, hd⟩
    exact ⟨d, hd.advanced hstep⟩
  have hprovides : ∀ f, w.definitions.Provides (fun l => ∃ d, Backs w₀ w d l) (fun _ => True)
      reg.globals f := by
    refine fun f => (Definitions.provides_draws hw.definitions reg.globals f).mono ?_
    rintro l ⟨d, hd⟩
    exact ⟨d, w, hrun, .refl, hd⟩
  have hbesides := Action.besides_compile (hw.neat hreg) factory traits
  rw [hexec] at hbesides
  have hothers : ∀ q reg', q ≠ r → w'.registryAt? q = some reg' →
      reg'.cache.MadeOf (fun l => ∃ d, Backs w₀ w' d l) w' := by
    intro q reg' hq hreg'
    rw [hbesides.others q hq] at hreg'
    exact (h q reg' hreg').mono hbacks hbesides.plans
  obtain ⟨e, w₁, -, hexec', hu⟩ | ⟨outcome', c, w₁, hexec', hlaid⟩ :=
    Action.laid_compile (hw.neat hreg) (h r reg hreg) (fun _ f _ => hprovides f) factory traits <;>
    obtain ⟨rfl, rfl⟩ := Prod.mk.inj (hexec.symm.trans hexec')
  · refine ⟨fun q reg' hreg' => ?_, fun _ hp => by cases hp⟩
    by_cases hq : q = r
    · subst hq
      rw [hu.registryAt?] at hreg'
      exact (h q reg' hreg').mono hbacks hbesides.plans
    · exact hothers q reg' hq hreg'
  · refine ⟨fun q reg' hreg' => ?_, fun p hp => ?_⟩
    · by_cases hq : q = r
      · subst hq
        obtain rfl := Option.some.inj (hlaid.recached.registry.symm.trans hreg')
        exact hlaid.cache.mono hbacks fun _ _ hs => hs
      · exact hothers q reg' hq hreg'
    · exact (hlaid.plan p hp).mono hbacks fun _ _ hs => hs

theorem Blank.traceable (h : w.Blank) : Traceable w w := by
  intro r reg hreg
  rw [h.registries r reg hreg]
  exact ⟨fun _ _ hl => (by cases hl), fun _ _ hp => by cases hp⟩

/-- **Wherever steps lead**, all that caches hold was made of definitions that stand behind it. -/
theorem traceable_advanced (hw : w₀.Ordinary) (hstart : Traceable w₀ w₀) (h : w₀.Advanced w) :
    Traceable w₀ w := by
  induction h with
  | refl => exact hstart
  | @tail w w' hrun hstep ih =>
    have hordinary := hw.advanced hrun
    obtain hedited | ⟨r, reg, factory, traits, hreg, rfl⟩ := hstep.edited_or_compiled hordinary
    · intro r reg hreg
      refine (hedited.madeOf ih r reg hreg).mono (fun l hl => ?_) fun _ _ hs => hs
      obtain ⟨d, hd⟩ := hl
      exact ⟨d, hd.advanced (.single hstep)⟩
    · exact (ih.compile hordinary hrun hreg factory traits _ _ rfl).1

end World

/-! ## 4. Plans -/

/-- **Where the parts of a plan come from.** A definition stands behind each of its layers. The
origin of a declaration is the label of whatever definition stands behind the last layer that lists
its name. A callback of a layer is kept once; and layers of different definitions have no callback
in common, though they may have the same function. -/
structure Plan.Traced (w₀ w : World) (p : Plan) : Prop where
  backed : ∀ l ∈ p.layers, ∃ d x, World.Backs w₀ w d l ∧ w.definitions.get? d = some x
  origins : ∀ declaration ∈ p.attributes, ∀ below l above, p.layers = below ++ l :: above →
    (∃ listed ∈ l.attributes, listed.name = declaration.name) →
    (∀ l' ∈ above, ∀ other ∈ l'.attributes, other.name ≠ declaration.name) →
    ∀ d x, World.Backs w₀ w d l → w.definitions.get? d = some x → declaration.origin = x.label
  kept : ∀ l ∈ p.layers, ∀ c ∈ l.callbacks, p.callbacks.count c = 1
  apart : ∀ l ∈ p.layers, ∀ l' ∈ p.layers, ∀ d d', World.Backs w₀ w d l →
    World.Backs w₀ w d' l' → d ≠ d' → ∀ c ∈ l.callbacks, ∀ c' ∈ l'.callbacks, c.object ≠ c'.object

/-- There is only one last layer that lists a name. -/
theorem last_layer_unique {layers below above below' above' : List Layer} {l l' : Layer}
    {name : String} (h : layers = below ++ l :: above) (h' : layers = below' ++ l' :: above')
    (hl : ∃ d ∈ l.attributes, d.name = name) (hl' : ∃ d ∈ l'.attributes, d.name = name)
    (habove : ∀ k ∈ above, ∀ d ∈ k.attributes, d.name ≠ name)
    (habove' : ∀ k ∈ above', ∀ d ∈ k.attributes, d.name ≠ name) : l = l' := by
  obtain ⟨d, hd, hname⟩ := hl
  obtain ⟨d', hd', hname'⟩ := hl'
  -- If one stood further up than the other, it would be among those above that do not list it.
  obtain ⟨mid, hbelow, hrest⟩ | ⟨mid, hbelow, hrest⟩ :=
    List.append_eq_append_iff.mp (h.symm.trans h')
  · cases mid with
    | nil => exact (List.cons.inj hrest).1
    | cons k mid =>
      obtain ⟨-, rfl⟩ := List.cons.inj hrest
      exact absurd hname' (habove l' (by simp) d' hd')
  · cases mid with
    | nil => exact (List.cons.inj hrest).1.symm
    | cons k mid =>
      obtain ⟨-, rfl⟩ := List.cons.inj hrest
      exact absurd hname (habove' l (by simp) d hd)

variable {w₀ w : World}

/-- **A plan whose layers definitions stand behind** tells where its parts come from. -/
theorem Plan.MadeOf.traced {p : Plan} (hw : w₀.Ordinary) (hmarked : w₀.Marked)
    (hrun : w₀.Advanced w) (h : p.MadeOf fun l => ∃ d, World.Backs w₀ w d l) :
    p.Flattens ∧ p.Traced w₀ w := by
  obtain ⟨hflat, hstack⟩ : p.Flattens ∧ p.callbacks.Sublist (p.layers.flatMap (·.callbacks)) := by
    obtain ⟨factory, model, traits, hp⟩ := h.assembled
    rw [hp]
    exact ⟨Plan.flattens_assemble factory model traits p.layers, sublist_keepFirst [] _⟩
  have hmarks := (hmarked.advanced hw hrun).1
  -- Two callbacks of layers that are one object are one callback of one definition.
  have hsame : ∀ {l l' d d' c c'}, World.Backs w₀ w d l → World.Backs w₀ w d' l' →
      c ∈ l.callbacks → c' ∈ l'.callbacks → c.object = c'.object → d = d' ∧ c = c' := by
    intro l l' d d' c c' hd hd' hc hc' hobject
    obtain ⟨x, hx, -, hcallbacks⟩ := hd.continues hw hmarked
    obtain ⟨x', hx', -, hcallbacks'⟩ := hd'.continues hw hmarked
    obtain rfl := hmarks.apart d d' x x' hx hx' c (hcallbacks c hc) c' (hcallbacks' c' hc') hobject
    obtain rfl := Option.some.inj (hx.symm.trans hx')
    exact ⟨rfl, List.inj_on_of_nodup_map (hmarks.distinct d x hx) (hcallbacks c hc)
      (hcallbacks' c' hc') hobject⟩
  refine ⟨hflat, fun l hl => ?_, fun declaration hdeclaration below l above hlayers hlists habove
    d x hd hx => ?_, fun l hl c hc => ?_, fun l hl l' hl' d d' hd hd' hne c hc c' hc' hobject =>
    hne (hsame hd hd' hc hc' hobject).1⟩
  · obtain ⟨d, hd⟩ := h.layers l hl
    obtain ⟨x, hx, -⟩ := hd.continues hw hmarked
    exact ⟨d, x, hd, hx⟩
  · obtain ⟨below', l', above', hlayers', hdeclared, habove'⟩ :=
      (hflat.attributes declaration).mp hdeclaration
    have hmem : declaration ∈ l'.attributes :=
      List.mem_reverse.mp (List.mem_of_find?_eq_some hdeclared)
    obtain rfl := last_layer_unique hlayers hlayers' hlists ⟨declaration, hmem, rfl⟩ habove habove'
    obtain ⟨x', hx', horigins, -⟩ := hd.continues hw hmarked
    obtain rfl := Option.some.inj (hx.symm.trans hx')
    exact horigins declaration hmem
  · -- What is kept of the object is the callback itself.
    have honce := hflat.once l hl c hc
    obtain ⟨kept, hkept, hobject⟩ := List.countP_pos_iff.mp (Nat.lt_of_lt_of_eq Nat.one_pos honce.symm)
    obtain ⟨l', hl', hkept'⟩ := List.mem_flatMap.mp (hstack.subset hkept)
    obtain ⟨d, hd⟩ := h.layers l hl
    obtain ⟨d', hd'⟩ := h.layers l' hl'
    obtain ⟨-, rfl⟩ := hsame hd hd' hc hkept' (of_decide_eq_true hobject).symm
    refine Nat.le_antisymm ?_ (List.count_pos_iff.mpr hkept)
    rw [← honce]
    exact List.countP_mono_left fun c' _ hc' => by simp_all

namespace World

theorem blank_fresh : World.fresh.Blank := by
  refine ⟨rfl, fun r reg hreg => ?_⟩
  obtain ⟨hlt, hget⟩ := Array.getElem?_eq_some_iff.mp hreg
  have hzero : r.index = 0 := Nat.lt_one_iff.mp hlt
  simp only [hzero] at hget
  exact hget.symm

theorem advanced_after (h : w₀.Advanced w) {c : Command} (hc : c.declares)
    (hrefers : c.Refers w) : w₀.Advanced (w.after c) := h.tail (.declared hc hrefers default)

/-- A trait with an attribute and a callback, and a factory that applies the trait, declares the
attribute anew, and has the same function for a callback of its own. -/
def overlaid : World :=
  ((((((fresh.after (.defineTrait (some (.registry ⟨0⟩)) (.text "t"))).after
    (.set (.builder ⟨0⟩) (.text "x") (some (.int 1)) .null)).after
    (.callback (.builder ⟨0⟩) (.keyword (.event .afterBuild)) (.type "dict"))).after
    (.defineFactory (some (.registry ⟨0⟩)) (.text "f") .null .null none)).after
    (.apply (.builder ⟨1⟩) (.text "t"))).after
    (.set (.builder ⟨1⟩) (.text "x") (some (.int 2)) .null)).after
    (.callback (.builder ⟨1⟩) (.keyword (.event .afterBuild)) (.type "dict"))

theorem advanced_overlaid : World.fresh.Advanced overlaid := by
  refine advanced_after (advanced_after (advanced_after (advanced_after (advanced_after
    (advanced_after (advanced_after .refl ?_ ?_) ?_ ?_) ?_ ?_) ?_ ?_) ?_ ?_) ?_ ?_) ?_ ?_ <;>
    first | rfl | trivial

end World

namespace Action

/-- **What a compilation gives**, wherever steps have led, is a plan that is assembled from layers
that definitions stand behind. -/
theorem stores_of_compile {w' : World} {r : RegistryId} {factory : Value} {traits : Option Value}
    {p : PlanId} (hblank : w₀.Blank) (hrun : w₀.Advanced w)
    (hexec : (compile r factory traits).execute w = (.ok p, w')) :
    w'.Stores (fun l => ∃ d, World.Backs w₀ w' d l) p := by
  have hordinary := hblank.ordinary.advanced hrun
  rcases hreg : w.registryAt? r with _ | reg
  · -- A registry that is not there compiles nothing.
    have hfails : ∃ e, (getRegistry r).execute w = (.error e, w) := by
      rw [getRegistry, execute_bind_ok (execute_get w), hreg]
      exact ⟨_, rfl⟩
    obtain ⟨e, hfails⟩ := hfails
    rw [compile, resolverOf, bind_assoc, execute_bind_error hfails] at hexec
    cases hexec
  · have htraceable := World.traceable_advanced hblank.ordinary hblank.traceable hrun
    exact (htraceable.compile hordinary hrun hreg factory traits _ w' hexec).2 p rfl

/-- **Flattening keeps order, loses nothing and keeps nothing twice.** Whatever a stack of layers
is, the plan that is assembled from it has the names that its layers list, each once and where it
is listed first, each with what the last layer that lists it declares; and the callbacks that they
have, each object once and where it stands first, which the events divide among themselves in
order. Wherever declarations and compilations have led, in any order and with any outcome, this is
so for the plan of every compilation, be it fresh or out of a cache; and the origin of each of its
declarations is the label of the definition behind the last layer that lists the name. -/
theorem flattened_and_traced :
    (∀ factory model traits layers, (Plan.assemble factory model traits layers).Flattens) ∧
    ∀ (w₀ w w' : World) (r : RegistryId) (factory : Value) (traits : Option Value) (p : PlanId),
      w₀.Blank → w₀.Advanced w → (compile r factory traits).execute w = (.ok p, w') →
      ∃ plan, w'.plan? p = some plan ∧ plan.Flattens ∧ plan.Traced w₀ w' := by
  refine ⟨Plan.flattens_assemble, fun w₀ w w' r factory traits p hblank hrun hexec => ?_⟩
  obtain ⟨s, hs, hmade⟩ := stores_of_compile hblank hrun hexec
  have hstep : w.Advance w' := by
    have hcompiled := World.Advance.compiled (w := w) r factory traits
    rwa [hexec] at hcompiled
  exact ⟨s.plan, Option.map_eq_some_iff.mpr ⟨s, hs, rfl⟩,
    hmade.traced hblank.ordinary hblank.marked (hrun.tail hstep)⟩

/-- A trait that is reached twice, by the factory and by the call: its declaration counts where it
stands last, and its callback is kept once, as is that of the factory with the same function. -/
theorem flattened_overlaid :
    ∃ p w' plan, (compile ⟨0⟩ (.text "f") (some (.text "t"))).execute World.overlaid = (.ok p, w') ∧
      w'.plan? p = some plan ∧ plan.layers.map (·.name) = ["t", "f", "t"] ∧
      plan.attributes.map (fun d => (d.name, d.origin)) = [("x", "trait:t")] ∧
      plan.callbacks.map (fun c => (c.owner, c.fn)) =
        [("trait:t", .type "dict"), ("factory:f", .type "dict")] ∧
      plan.Flattens ∧ plan.Traced World.fresh w' := by
  have hok : ((compile ⟨0⟩ (.text "f") (some (.text "t"))).execute World.overlaid).1 = .ok ⟨0⟩ := by
    decide +kernel
  have hexec : (compile ⟨0⟩ (.text "f") (some (.text "t"))).execute World.overlaid =
      (.ok ⟨0⟩, ((compile ⟨0⟩ (.text "f") (some (.text "t"))).execute World.overlaid).2) := by
    rw [← hok]
  obtain ⟨plan, hplan, hflattens, htraced⟩ := flattened_and_traced.2 World.fresh World.overlaid _ ⟨0⟩
    (.text "f") (some (.text "t")) ⟨0⟩ World.blank_fresh World.advanced_overlaid hexec
  refine ⟨⟨0⟩, _, plan, hexec, hplan, ?_⟩
  have hshown : (((compile ⟨0⟩ (.text "f") (some (.text "t"))).execute World.overlaid).2.plan?
      ⟨0⟩).map (fun plan => (plan.layers.map (·.name),
        plan.attributes.map fun d => (d.name, d.origin),
        plan.callbacks.map fun c => (c.owner, c.fn))) =
      some (["t", "f", "t"], [("x", "trait:t")],
        [("trait:t", .type "dict"), ("factory:f", .type "dict")]) := by decide +kernel
  rw [hplan] at hshown
  simp only [Option.map_some, Option.some.injEq, Prod.mk.injEq] at hshown
  exact ⟨hshown.1, hshown.2.1, hshown.2.2, hflattens, htraced⟩

end Action

end TraitFactory
