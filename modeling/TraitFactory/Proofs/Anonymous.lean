import TraitFactory.Proofs.Agreeing
import TraitFactory.Proofs.Expansion

/-!
# Call-time traits as an anonymous child

A child that has nothing of its own but the traits that it applies compiles to what its parent
does with these as the first of its call-time traits. The layers differ in their kinds and scopes,
and there is one more, which is empty: a plan takes neither into account when it is flattened.
-/

namespace TraitFactory

/-! ## 1. What plans take from layers -/

/-- **Layers that contribute the same**, whatever they are called. -/
structure Layer.SameContent (l l' : Layer) : Prop where
  attributes : l.attributes = l'.attributes
  constructor : l.constructor = l'.constructor
  persistor : l.persistor = l'.persistor
  callbacks : l.callbacks = l'.callbacks

/-- **Plans that hold the same** for whoever evaluates them. -/
structure Plan.SameContent (p p' : Plan) : Prop where
  attributes : p.attributes = p'.attributes
  constructor : p.constructor = p'.constructor
  persistor : p.persistor = p'.persistor
  callbacks : p.callbacks = p'.callbacks
  model : p.model = p'.model

/-- A layer in which nothing is declared. -/
structure Layer.Empty (l : Layer) : Prop where
  attributes : l.attributes = []
  constructor : l.constructor = none
  persistor : l.persistor = none
  callbacks : l.callbacks = []

theorem Layer.SameContent.refl (l : Layer) : l.SameContent l := ⟨rfl, rfl, rfl, rfl⟩

theorem Plan.SameContent.trans {p p' p'' : Plan} (h : p.SameContent p') (h' : p'.SameContent p'') :
    p.SameContent p'' where
  attributes := h.attributes.trans h'.attributes
  constructor := h.constructor.trans h'.constructor
  persistor := h.persistor.trans h'.persistor
  callbacks := h.callbacks.trans h'.callbacks
  model := h.model.trans h'.model

namespace AttributeSet

/-- Names that are new are added at the end. -/
theorem entries_foldl_declare {s : AttributeSet} {ds : List Declaration}
    (hnodup : (s.names ++ ds.map (·.name)).Nodup) :
    (ds.foldl declare s).table.entries = s.table.entries ++ ds.map fun d => (d.name, d) := by
  induction ds generalizing s with
  | nil => exact (List.append_nil _).symm
  | cons d ds ih =>
    rw [List.map_cons] at hnodup
    have hnew : d.name ∉ s.names := fun hmem =>
      (List.nodup_append.mp hnodup).2.2 d.name hmem d.name List.mem_cons_self rfl
    have hentries : (s.declare d).table.entries = s.table.entries ++ [(d.name, d)] :=
      Table.insertEntry_of_not_mem d hnew
    rw [List.foldl_cons, ih, hentries, List.append_assoc]
    · rfl
    · rw [names_declare, if_neg hnew, List.append_assoc]
      exact hnodup

/-- A set is what its own declarations make. -/
theorem Keyed.ofList_declarations {s : AttributeSet} (h : s.Keyed) : ofList s.declarations = s := by
  have hentries : s.declarations.map (fun d => (d.name, d)) = s.table.entries := by
    rw [declarations, Table.values, List.map_map]
    refine (List.map_congr_left (g := id) fun e he => ?_).trans (List.map_id _)
    exact Prod.ext (h.1 e he).symm rfl
  have hnodup : (names ∅ ++ s.declarations.map (·.name)).Nodup := by
    have hnames : s.declarations.map (·.name) = s.names := by
      rw [names, Table.keys, ← hentries, List.map_map]
      rfl
    exact hnames.symm ▸ h.2
  have htable : (ofList s.declarations).table.entries = s.table.entries :=
    (entries_foldl_declare hnodup).trans hentries
  cases s
  exact congrArg (fun es => AttributeSet.mk (Table.mk es)) htable

end AttributeSet

namespace Plan

theorem flatten_eq_foldl (layers : List Layer) :
    flatten layers = (layers.map (·.attributes)).foldl
      (fun below attributes => (AttributeSet.ofList attributes).mergeOver below.declarations)
      ∅ := by
  rw [List.foldl_map]
  rfl

/-- Layers that contribute the same make plans that hold the same. -/
theorem sameContent_assemble {layers layers' : List Layer}
    (h : List.Forall₂ Layer.SameContent layers layers') (factory factory' : String) (model : Value)
    (traits traits' : List String) :
    (assemble factory model traits layers).SameContent
      (assemble factory' model traits' layers') := by
  have hmap : ∀ {α : Type} (part : Layer → α), (∀ l l', l.SameContent l' → part l = part l') →
      layers.map part = layers'.map part := by
    intro α part hpart
    refine List.forall₂_eq_eq_eq ▸ ?_
    rw [List.forall₂_map_left_iff, List.forall₂_map_right_iff]
    exact h.imp fun l l' => hpart l l'
  refine ⟨?_, congrArg lastChoice (hmap _ fun _ _ h => h.constructor),
    congrArg lastChoice (hmap _ fun _ _ h => h.persistor), ?_, rfl⟩
  · show (flatten layers).declarations = (flatten layers').declarations
    rw [flatten_eq_foldl, flatten_eq_foldl, hmap _ fun _ _ h => h.attributes]
  · show keepFirst [] (layers.flatMap _) = keepFirst [] (layers'.flatMap _)
    rw [List.flatMap_def, List.flatMap_def, hmap _ fun _ _ h => h.callbacks]

/-- **An empty layer makes no difference**, wherever it stands. -/
theorem sameContent_empty {l : Layer} (h : l.Empty) (lower upper : List Layer) (factory : String)
    (model : Value) (traits : List String) :
    (assemble factory model traits (lower ++ l :: upper)).SameContent
      (assemble factory model traits (lower ++ upper)) := by
  have hchoice : ∀ part : Layer → Option Value, part l = none →
      lastChoice ((lower ++ l :: upper).map part) = lastChoice ((lower ++ upper).map part) := by
    intro part hnone
    simp only [List.map_append, List.map_cons, lastChoice, List.foldl_append, List.foldl_cons,
      hnone, Option.none_or]
  refine ⟨?_, hchoice _ h.constructor, hchoice _ h.persistor, ?_, rfl⟩
  · show (flatten (lower ++ l :: upper)).declarations = (flatten (lower ++ upper)).declarations
    -- Nothing is put over what the lower layers have come to.
    have hbelow : (AttributeSet.ofList l.attributes).mergeOver (flatten lower).declarations =
        flatten lower := by
      rw [h.attributes]
      exact (keyed_flatten lower).ofList_declarations
    unfold flatten at hbelow ⊢
    rw [List.foldl_append, List.foldl_append, List.foldl_cons, hbelow]
  · show keepFirst [] ((lower ++ l :: upper).flatMap _) = keepFirst [] ((lower ++ upper).flatMap _)
    rw [List.flatMap_append, List.flatMap_append, List.flatMap_cons, h.callbacks, List.nil_append]

end Plan

/-! ## 2. The anonymous child -/

theorem World.expandAll_append (w : World) (global : Slot (Table DefinitionId))
    (scope : DefinitionId) (kind : LayerKind) (refs refs' : List Value) :
    w.expandAll global scope kind (refs ++ refs') = (do
      let layers ← w.expandAll global scope kind refs
      let layers' ← w.expandAll global scope kind refs'
      return layers ++ layers') := by
  simp only [World.expandAll, List.mapM_append, bind_assoc, pure_bind, List.flatten_append]

/-- **A child with nothing of its own** but the traits that it applies. -/
def Definitions.HasBareChild (ds : Definitions) (f child : DefinitionId) (applied : List String) :
    Prop :=
  ∃ name, ds.get? child = some (.newFactory name applied (.definition f) .null)

namespace Definitions.HasBareChild

variable {ds : Definitions} {f child : DefinitionId} {applied : List String}
  {levels : List DefinitionId} {global : Table DefinitionId}

theorem template? (h : ds.HasBareChild f child applied) :
    ds.template? child = some { parent := .definition f } := by
  obtain ⟨name, hd⟩ := h
  rw [Definitions.template?, hd]
  rfl

theorem ancestry (h : ds.HasBareChild f child applied) (ha : Ancestry ds f levels) :
    Ancestry ds child (child :: levels) := .child h.template? rfl ha

/-- A name is visible from the child as from its parent. -/
theorem visible? (h : ds.HasBareChild f child applied) (ha : Ancestry ds f levels)
    (name : String) : ds.visible? global child name = ds.visible? global f name := by
  obtain ⟨_, hd⟩ := id h
  have hown : (ds.get? child).bind (·.localTrait? name) = none := by
    rw [hd]
    rfl
  rw [Definitions.visible?, Definitions.visible?, levels_of_ancestry ha,
    levels_of_ancestry (h.ancestry ha), List.findSome?_cons, hown]

theorem model? (h : ds.HasBareChild f child applied) (ha : Ancestry ds f levels) :
    ds.model? child = ds.model? f := by
  have hown : ((ds.template? child).bind fun t => t.model.hook?) = none := by
    rw [h.template?]
    rfl
  rw [Definitions.model?, Definitions.model?, levels_of_ancestry ha,
    levels_of_ancestry (h.ancestry ha), List.findSome?_cons, hown]

end Definitions.HasBareChild

/-- A missing trait is told by its name, wherever it was looked up from. -/
theorem Definitions.cause_missingFailure (ds : Definitions) (v : Reference) :
    (ds.missingFailure v).cause = .traitNotFound v.name := by
  unfold missingFailure Failure.traitNotFound
  dsimp only
  split <;> rfl

namespace World

variable {w : World} {global : Table DefinitionId} {f child : DefinitionId}
  {levels : List DefinitionId} {applied dynamic names : List String}

/-- References expand from the child to what they do from its parent, but for kinds and scopes;
or they fail with the same cause. -/
theorem expandAll_bareChild (hw : w.definitions.Plain) (hstocked : w.definitions.Stocked global)
    (ha : Ancestry w.definitions f levels) (hc : w.definitions.HasBareChild f child applied)
    (kind kind' : LayerKind) (names : List String) :
    Agrees (List.Forall₂ Layer.SameContent) (fun e e' => e.cause = e'.cause)
      (w.expandAll (.own global) child kind (names.map .text))
      (w.expandAll (.own global) f kind' (names.map .text)) := by
  obtain ⟨vs, hvs⟩ : ∃ vs, Visits w.definitions global child [] names vs :=
    Visits.exists_of_trail hstocked .nil names
  refine expandAll_agrees hw hw (Nat.le_refl _) (hc.ancestry ha) ha rfl hvs fun v hv => ?_
  have htarget : w.definitions.visible? global f v.name = v.target? w.definitions global := by
    rw [Reference.target?, hvs.scope_eq hv, hc.visible? ha]
  refine ⟨htarget, fun _ => ?_, fun _ _ _ => rfl, fun t definition _ hd => ?_⟩
  · rw [Definitions.cause_missingFailure, Definitions.cause_missingFailure]
  · exact ⟨definition, hd, rfl, rfl, rfl, rfl, rfl, rfl⟩

/-- **The child compiles to what its parent does** with the child's traits before the call-time
ones. -/
theorem compile_bareChild (hw : w.definitions.Plain) (hstocked : w.definitions.Stocked global)
    (ha : Ancestry w.definitions f levels) (hc : w.definitions.HasBareChild f child applied) :
    Agrees Plan.SameContent (fun e e' => e.cause = e'.cause)
      (w.compile (.own global) child dynamic) (w.compile (.own global) f (applied ++ dynamic)) := by
  have hexpand := expandAll_bareChild hw hstocked ha hc
  obtain ⟨name, hd⟩ := id hc
  let own := (Definition.newFactory name applied (.definition f) .null).layer .factory none
  have hempty : own.Empty := ⟨rfl, rfl, rfl, rfl⟩
  have hlevel : w.levelLayers (.own global) child = (do
      let traits ← w.expandAll (.own global) child .trait (applied.map .text)
      return traits ++ [own]) := levelLayers_plain hw (hc.ancestry ha) hd
  rw [compile_plain hw (hc.ancestry ha), compile_plain hw ha, staticLayers, hlevel, hc.model? ha,
    List.map_append, expandAll_append]
  simp only [bind_assoc, pure_bind]
  -- The parent's levels come first in both. Then each expansion agrees with the other.
  have hlevels := Agrees.refl (R := Eq) (E := fun e e' => e.cause = e'.cause) (fun _ => rfl)
    (fun _ => rfl) (w.staticLayers (.own global) (.ok []) levels)
  refine hlevels.bind fun inherited _ hinherited => (hexpand .trait .dynamicTrait applied).bind
    fun traits traits' htraits => (hexpand .dynamicTrait .dynamicTrait dynamic).bind
    fun layers layers' hlayers => .ok ?_
  subst hinherited
  have hstack : inherited ++ (traits ++ [own]) ++ layers =
      (inherited ++ traits) ++ own :: layers := by simp
  rw [hstack]
  refine (Plan.sameContent_empty hempty _ _ _ _ _).trans (Plan.sameContent_assemble ?_ _ _ _ _ _)
  rw [← List.append_assoc]
  exact List.rel_append (List.rel_append (List.forall₂_same.mpr fun l _ => .refl l) htraits) hlayers

end World

/-! ## 3. Calls -/

namespace Action

variable {r : RegistryId} {w : World} {f child : DefinitionId} {applied : List String}

/-- **Call-time traits are an anonymous child.** In every world that proper declarations lead to, a
registered child with nothing of its own but the traits that it applies compiles with further
call-time traits to what its parent does with the one after the other. Both give plans that hold
the same attributes, constructor, persistor, callbacks and model; or both fail with the same cause,
which tells a missing name, or the way round a cycle. -/
theorem anonymous_child {w₀ : World} (hstart : w₀.Neat r {})
    (horderly : (w₀.catalogue r).Orderly) (hrun : BuildingRun r w₀ w)
    (hchild : w.Registered r child) (hbare : w.definitions.HasBareChild f child applied)
    (dynamic : List String) :
    ∃ outcome outcome', Compiles r w child dynamic outcome ∧
      Compiles r w f (applied ++ dynamic) outcome' ∧
      Agrees Plan.SameContent (fun e e' => e.cause = e'.cause) outcome outcome' := by
  obtain ⟨reg, h, ho⟩ := World.orderly_run (World.tracked_new hstart) horderly hrun
  obtain ⟨name, hname⟩ := hchild
  -- The parent of a registered factory is registered.
  have hparent := ho.parents name child _ f hname hbare.template? rfl
  have hstocked : w.definitions.Stocked reg.globals := h.neat.traits_eq ▸ ho.stocked
  have ha := ancestry_of_registered ho.toFounded hparent
  exact ⟨_, _, compiles_of_orderly h ho ⟨name, hname⟩ dynamic,
    compiles_of_orderly h ho ⟨_, hparent⟩ (applied ++ dynamic),
    World.compile_bareChild h.neat.definitions hstocked ha hbare⟩

/-- In a family the child applies its parent's trait and has nothing else. -/
theorem anonymous_child_offspring : ∃ plan plan',
    ComesTo ⟨0⟩ (.text "child") none World.offspring (.ok plan) ∧
    ComesTo ⟨0⟩ (.text "base") (some (.text "v")) World.offspring (.ok plan') ∧
    plan.layers ≠ plan'.layers ∧ plan.SameContent plan' := by
  have hchild : World.offspring.Registered ⟨0⟩ ⟨2⟩ := ⟨"child", by decide +kernel⟩
  have hbare : World.offspring.definitions.HasBareChild ⟨0⟩ ⟨2⟩ ["v"] :=
    ⟨"child", by decide +kernel⟩
  obtain ⟨outcome, outcome', hcompiles, hcompiles', hagrees⟩ := anonymous_child World.neat_fresh
    World.orderly_fresh World.run_offspring hchild hbare []
  have hcomes := hcompiles.planOf_eq (.text "child") none (by decide +kernel)
  have hcomes' := hcompiles'.planOf_eq (.text "base") (some (.text "v")) (by decide +kernel)
  have hlayers : (planOf ⟨0⟩ (.text "child") none World.offspring).toOption.join.map
      (·.layers.length) = some 3 := by decide +kernel
  have hlayers' : (planOf ⟨0⟩ (.text "base") (some (.text "v")) World.offspring).toOption.join.map
      (·.layers.length) = some 2 := by decide +kernel
  rw [hcomes] at hlayers
  rw [hcomes'] at hlayers'
  cases hagrees with
  | error => cases hlayers
  | ok hsame =>
    refine ⟨_, _, hcomes, hcomes', fun heq => ?_, hsame⟩
    have hlength := (Option.some.inj hlayers).symm.trans
      ((congrArg List.length heq).trans (Option.some.inj hlayers'))
    cases hlength

end Action

end TraitFactory
