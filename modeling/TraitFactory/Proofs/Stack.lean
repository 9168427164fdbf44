import TraitFactory.Proofs.Plain

/-!
# The stack of layers

The compiler collects layers from three recursions: over the levels of a factory, over the traits
that a level or another trait applies, and over the call-time traits. Here is what the second one
comes to: a reference includes a whole tree of traits, `Inclusion`, of which the post-order is the
order in which their layers are stacked, and a search from the top finds what it supplies for a name.
A reference is expanded just when it has a tree whose hooks can be called, and then to the layers of
the tree's post-order. What a level contributes, and what a call does, follows.
-/

namespace TraitFactory

/-! ## 1. Trees of traits -/

/-- **A trait with what each trait that it applies includes**, in the order in which it applies
them. -/
inductive Inclusion where
  | node (trait : DefinitionId) (parts : List Inclusion)

namespace Inclusion

mutual

/-- **Post-order**: what a trait applies comes before it. -/
def traits : Inclusion → List DefinitionId
  | node t parts => traitsOfAll parts ++ [t]

def traitsOfAll : List Inclusion → List DefinitionId
  | [] => []
  | i :: is => i.traits ++ traitsOfAll is

end

mutual

/-- **What a trait supplies**: what it has itself, else what the last part that supplies anything
does. -/
def find? {α : Type} (own : DefinitionId → Option α) : Inclusion → Option α
  | node t parts => (own t).or (findLast? own parts)

/-- What the last of some traits that supplies anything does. -/
def findLast? {α : Type} (own : DefinitionId → Option α) : List Inclusion → Option α
  | [] => none
  | i :: is => (findLast? own is).or (i.find? own)

end

mutual

/-- **The tree of a reference**: its trait is the one visible under the name from the scope, and
its parts are the trees of the names that the trait applies, seen from the same scope. -/
def Of (ds : Definitions) (global : Table DefinitionId) (scope : DefinitionId) :
    Inclusion → String → Prop
  | node t parts, name =>
    ds.visible? global scope name = some t ∧
      ∃ definition, ds.get? t = some definition ∧ AllOf ds global scope parts definition.applied

/-- One tree for each reference. -/
def AllOf (ds : Definitions) (global : Table DefinitionId) (scope : DefinitionId) :
    List Inclusion → List String → Prop
  | [], [] => True
  | i :: is, name :: names => Of ds global scope i name ∧ AllOf ds global scope is names
  | _, _ => False

end

/-! ## 2. Both readings agree, and there is one tree -/

mutual

/-- Searching from the top finds the last supplier of the post-order. -/
theorem find?_eq_findSome? {α : Type} (own : DefinitionId → Option α) :
    ∀ i : Inclusion, i.find? own = i.traits.reverse.findSome? own
  | node t parts => by
    simp only [find?, traits, findLast?_eq_findSome? own parts, List.reverse_append,
      List.reverse_singleton, List.singleton_append, List.findSome?_cons]
    cases own t <;> simp

theorem findLast?_eq_findSome? {α : Type} (own : DefinitionId → Option α) :
    ∀ is : List Inclusion, findLast? own is = (traitsOfAll is).reverse.findSome? own
  | [] => by simp [findLast?, traitsOfAll]
  | i :: is => by
    simp [findLast?, traitsOfAll, findLast?_eq_findSome? own is, find?_eq_findSome? own i]

end

mutual

theorem Of.unique {ds : Definitions} {global : Table DefinitionId} {scope : DefinitionId} :
    ∀ {i j : Inclusion} {name : String}, Of ds global scope i name → Of ds global scope j name →
      i = j
  | node t parts, node t' parts', name, h, h' => by
    obtain ⟨ht, definition, hd, hparts⟩ := h
    obtain ⟨ht', definition', hd', hparts'⟩ := h'
    obtain rfl := Option.some.inj (ht.symm.trans ht')
    obtain rfl := Option.some.inj (hd.symm.trans hd')
    rw [AllOf.unique hparts hparts']

theorem AllOf.unique {ds : Definitions} {global : Table DefinitionId} {scope : DefinitionId} :
    ∀ {is js : List Inclusion} {names : List String}, AllOf ds global scope is names →
      AllOf ds global scope js names → is = js
  | [], [], _, _, _ => rfl
  | [], _ :: _, [], _, h' => h'.elim
  | [], _ :: _, _ :: _, h, _ => h.elim
  | _ :: _, [], [], h, _ => h.elim
  | _ :: _, [], _ :: _, _, h' => h'.elim
  | _ :: _, _ :: _, [], h, _ => h.elim
  | i :: is, j :: js, name :: names, h, h' => by
    rw [Of.unique h.1 h'.1, AllOf.unique h.2 h'.2]

end

end Inclusion

/-! ## 3. Sequences of results -/

/-- A list of results is made just when each of them is. -/
theorem mapM_eq_ok_iff {α β ε : Type} {f : α → Except ε β} {xs : List α} {ys : List β} :
    xs.mapM f = .ok ys ↔ List.Forall₂ (fun x y => f x = .ok y) xs ys := by
  induction xs generalizing ys with
  | nil => cases ys <;> simp [pure, Except.pure]
  | cons x xs ih =>
    rw [List.mapM_cons]
    rcases hx : f x with e | y
    · cases ys <;> simp [bind, Except.bind, hx]
    · rcases hxs : xs.mapM f with e | zs
      · cases ys <;> simp [bind, Except.bind, ← ih, hx, hxs]
      · cases ys <;> simp [bind, Except.bind, pure, Except.pure, ← ih, hx, hxs]

/-- References by names, one after another. -/
theorem mapM_names_eq_ok_iff {β ε : Type} {f : Value → Except ε β} {names : List String}
    {ys : List β} : (names.map Value.text).mapM f = .ok ys ↔
      List.Forall₂ (fun n y => f (.text n) = .ok y) names ys := by
  rw [mapM_eq_ok_iff, List.forall₂_map_left_iff]

theorem bind_eq_ok_iff {α β ε : Type} {x : Except ε α} {f : α → Except ε β} {y : β} :
    x >>= f = .ok y ↔ ∃ a, x = .ok a ∧ f a = .ok y := by
  cases x <;> simp [bind, Except.bind]

/-- The layers of some definitions, one for each. -/
def Definitions.layersOf (ds : Definitions) (kind : LayerKind) (scope : Option String)
    (ts : List DefinitionId) : List Layer :=
  ts.filterMap fun t => (ds.get? t).map (·.layer kind scope)

namespace Definitions

theorem layersOf_append (ds : Definitions) (kind : LayerKind) (scope : Option String)
    (ts us : List DefinitionId) :
    ds.layersOf kind scope (ts ++ us) = ds.layersOf kind scope ts ++ ds.layersOf kind scope us :=
  List.filterMap_append

theorem nameOf_grow {ds ds' : Definitions} (hg : ds.GrowsTo ds') {d : DefinitionId}
    {t : Template} (ht : ds.template? d = some t) : ds'.nameOf d = ds.nameOf d := by
  obtain ⟨definition, hd, _⟩ := get?_of_template? ht
  rw [nameOf, nameOf, hd, hg.2 d definition hd]

end Definitions

namespace World

variable {w w' : World} {global : Table DefinitionId} {scope : DefinitionId}
  {levels trail : List DefinitionId} {kind : LayerKind} {name : String} {layers : List Layer}

/-! ## 4. Expanding a reference -/

/-- One level of the expansion: the traits that the trait applies, and then its own layer. -/
theorem expand_succ (global : Slot (Table DefinitionId)) (scope : DefinitionId) (kind : LayerKind)
    (depth : Nat) (trail : List DefinitionId) (ref : Value) :
    w.expand global scope kind (depth + 1) trail ref = (do
      let t ← w.traitAt global scope trail ref
      if t ∈ trail then .error (w.definitions.cycle scope (trail ++ [t]))
      else
        match w.definitions.get? t with
        | some trait => do
          let nested ← (← w.references trait.appliedTraits).mapM
            (w.expand global scope kind depth (trail ++ [t]))
          let layer ← w.layerOf trait kind (← w.scopeName scope)
          return nested.flatten ++ [layer]
        | none => .error (Failure.raise .tooDeep)) := by
  delta World.expand
  refine congrArg (w.traitAt global scope trail ref >>= ·) (funext fun t => ?_)
  -- Both sides stop at the trail, or else open the same definition.
  refine ite_congr rfl (fun _ => rfl) fun _ => ?_
  cases w.definitions.get? t <;> rfl

theorem expand_zero (global : Slot (Table DefinitionId)) (scope : DefinitionId) (kind : LayerKind)
    (trail : List DefinitionId) (ref : Value) :
    w.expand global scope kind 0 trail ref = (do
      let t ← w.traitAt global scope trail ref
      if t ∈ trail then .error (w.definitions.cycle scope (trail ++ [t]))
      else .error (Failure.raise .tooDeep)) := by
  delta World.expand
  refine congrArg (w.traitAt global scope trail ref >>= ·) (funext fun t => ?_)
  refine ite_congr rfl (fun _ => rfl) fun _ => ?_
  cases w.definitions.get? t <;> rfl

/-- A reference is expanded just when its trait is visible, not on its own trail, and all that
the trait applies is expanded too. -/
theorem expand_eq_ok_iff (hw : w.definitions.Plain) (ha : Ancestry w.definitions scope levels)
    {depth : Nat} :
    w.expand (.own global) scope kind (depth + 1) trail (.text name) = .ok layers ↔
      ∃ t definition parts, w.definitions.visible? global scope name = some t ∧ t ∉ trail ∧
        w.definitions.get? t = some definition ∧ definition.hooksCallable = true ∧
        List.Forall₂ (fun n part =>
          w.expand (.own global) scope kind depth (trail ++ [t]) (.text n) = .ok part)
          definition.applied parts ∧
        layers = parts.flatten ++ [definition.layer kind (some (w.definitions.nameOf scope))] := by
  obtain ⟨_, htemplate⟩ := ha.template?_self
  have hname := scopeName_plain hw htemplate
  rw [expand_succ, bind_eq_ok_iff]
  simp only [traitAt_eq_ok_iff hw ha]
  constructor
  · rintro ⟨t, hvisible, h⟩
    split at h
    · cases h
    rename_i htrail
    rcases hd : w.definitions.get? t with _ | definition <;> rw [hd] at h
    · cases h
    have hplain := hw t definition hd
    simp only [bind_eq_ok_iff, references_plain hplain, hname, layerOf_plain hplain,
      Except.ok.injEq, exists_eq_left', mapM_names_eq_ok_iff] at h
    obtain ⟨parts, hparts, layer, hlayer, h⟩ := h
    split at hlayer
    · rename_i hcallable
      cases hlayer
      exact ⟨t, definition, parts, hvisible, htrail, hd, hcallable, hparts,
        (Except.ok.inj h).symm⟩
    · cases hlayer
  · rintro ⟨t, definition, parts, hvisible, htrail, hd, hcallable, hparts, rfl⟩
    have hplain := hw t definition hd
    refine ⟨t, hvisible, ?_⟩
    simp only [if_neg htrail, hd, bind_eq_ok_iff, references_plain hplain, hname,
      layerOf_plain hplain, if_pos hcallable, Except.ok.injEq, exists_eq_left',
      mapM_names_eq_ok_iff]
    exact ⟨parts, hparts, rfl⟩

/-- Without a bound left there is nothing but failures. -/
theorem expand_zero_ne_ok (global : Slot (Table DefinitionId)) (ref : Value) :
    w.expand global scope kind 0 trail ref ≠ .ok layers := by
  intro h
  rw [expand_zero] at h
  obtain ⟨t, _, h⟩ := bind_eq_ok_iff.mp h
  by_cases htrail : t ∈ trail
  · simp [htrail] at h
  · simp [htrail] at h

/-- The outcome of an expansion, failures included, is a matter of the definitions alone. -/
theorem expand_congr (hw : w.definitions.Plain) (hs : w'.definitions = w.definitions)
    (ha : Ancestry w.definitions scope levels) (depth : Nat) (trail : List DefinitionId)
    (name : String) :
    w'.expand (.own global) scope kind depth trail (.text name) =
      w.expand (.own global) scope kind depth trail (.text name) := by
  have hw' : w'.definitions.Plain := hs ▸ hw
  have ha' : Ancestry w'.definitions scope levels := hs ▸ ha
  induction depth generalizing trail name with
  | zero => rw [expand_zero, expand_zero, traitAt_plain hw ha, traitAt_plain hw' ha', hs]
  | succ depth ih =>
    rw [expand_succ, expand_succ, traitAt_plain hw ha, traitAt_plain hw' ha', hs]
    congr 1
    funext t
    -- Off the trail the parts are expanded the same way, by induction on the bound.
    refine ite_congr rfl (fun _ => rfl) fun _ => ?_
    rcases hd : w.definitions.get? t with _ | definition
    · rfl
    obtain ⟨_, htemplate⟩ := ha.template?_self
    have hplain := hw t definition hd
    have hname := scopeName_plain hw htemplate
    have hname' := scopeName_plain hw' (hs ▸ htemplate)
    simp only [references_plain hplain, layerOf_plain hplain, hname, hname', hs]
    simp only [bind, Except.bind, List.mapM_map, Function.comp_def, ih]

/-- Trees for references one by one give the trees, and the layers, of all of them. -/
theorem exists_inclusions {ds : Definitions} {scopeName : Option String} {names : List String}
    {parts : List (List Layer)}
    (h : List.Forall₂ (fun n part => ∃ i, Inclusion.Of ds global scope i n ∧
      part = ds.layersOf kind scopeName i.traits) names parts) :
    ∃ is, Inclusion.AllOf ds global scope is names ∧
      parts.flatten = ds.layersOf kind scopeName (Inclusion.traitsOfAll is) := by
  induction h with
  | nil => exact ⟨[], trivial, rfl⟩
  | cons hi _ ih =>
    obtain ⟨i, hi, rfl⟩ := hi
    obtain ⟨is, his, hflatten⟩ := ih
    refine ⟨i :: is, ⟨hi, his⟩, ?_⟩
    rw [List.flatten_cons, hflatten, Inclusion.traitsOfAll, Definitions.layersOf_append]

/-- What is expanded stays so while all that is read stays and the bound only rises. -/
theorem expand_kept (hw : w.definitions.Plain) (hw' : w'.definitions.Plain)
    (hk : w.definitions.KeepsRead w'.definitions global levels)
    (ha : Ancestry w.definitions scope levels) {depth depth' : Nat} (hdepth : depth ≤ depth')
    (h : w.expand (.own global) scope kind depth trail (.text name) = .ok layers) :
    w'.expand (.own global) scope kind depth' trail (.text name) = .ok layers := by
  induction depth generalizing depth' trail name layers with
  | zero => exact absurd h (expand_zero_ne_ok _ _)
  | succ depth ih =>
    -- The higher bound is a successor too, so the same trait is opened under it.
    obtain ⟨depth', rfl⟩ := Nat.exists_eq_add_one_of_ne_zero (n := depth') (by omega)
    obtain ⟨t, definition, parts, hvisible, htrail, hd, hcallable, hparts, rfl⟩ :=
      (expand_eq_ok_iff hw ha).mp h
    have hread : w.definitions.Reads global levels t := .inr ⟨scope, ha.mem, name, hvisible⟩
    refine (expand_eq_ok_iff hw' (hk.ancestry ha)).mpr
      ⟨t, definition, parts, (hk.visible? ha name).trans hvisible, htrail,
        hk.same t definition hread hd, hcallable,
        hparts.imp fun n part hpart => ih (by omega) hpart, by rw [hk.nameOf ha]⟩

/-- **An expanded reference has a tree**, and its layers are those of the tree's post-order. -/
theorem exists_inclusion (hw : w.definitions.Plain) (ha : Ancestry w.definitions scope levels)
    {depth : Nat} (h : w.expand (.own global) scope kind depth trail (.text name) = .ok layers) :
    ∃ i, Inclusion.Of w.definitions global scope i name ∧
      layers = w.definitions.layersOf kind (some (w.definitions.nameOf scope)) i.traits := by
  induction depth generalizing trail name layers with
  | zero => exact absurd h (expand_zero_ne_ok _ _)
  | succ depth ih =>
    obtain ⟨t, definition, parts, hvisible, _, hd, _, hparts, rfl⟩ := (expand_eq_ok_iff hw ha).mp h
    -- The parts have trees by induction; the trait itself is their root.
    obtain ⟨is, his, hflatten⟩ := exists_inclusions (hparts.imp fun n part hpart => ih hpart)
    refine ⟨.node t is, ⟨hvisible, definition, hd, his⟩, ?_⟩
    rw [Inclusion.traits, Definitions.layersOf_append, ← hflatten]
    simp [Definitions.layersOf, hd]

/-! ## 5. Expanding what a level and a call apply -/

theorem expandAll_eq_ok_iff {names : List String} :
    w.expandAll (.own global) scope kind (names.map .text) = .ok layers ↔
      ∃ parts, List.Forall₂ (fun n part =>
        w.expand (.own global) scope kind w.expansionDepth [] (.text n) = .ok part) names parts ∧
        layers = parts.flatten := by
  rw [expandAll, bind_eq_ok_iff]
  simp only [mapM_names_eq_ok_iff, pure, Except.pure, Except.ok.injEq, eq_comm (a := layers)]

theorem expandAll_kept (hw : w.definitions.Plain) (hw' : w'.definitions.Plain)
    (hk : w.definitions.KeepsRead w'.definitions global levels)
    (ha : Ancestry w.definitions scope levels) {names : List String}
    (h : w.expandAll (.own global) scope kind (names.map .text) = .ok layers) :
    w'.expandAll (.own global) scope kind (names.map .text) = .ok layers := by
  obtain ⟨parts, hparts, rfl⟩ := expandAll_eq_ok_iff.mp h
  have hdepth : w.expansionDepth ≤ w'.expansionDepth := Nat.succ_le_succ hk.size
  exact expandAll_eq_ok_iff.mpr
    ⟨parts, hparts.imp fun n part hpart => expand_kept hw hw' hk ha hdepth hpart, rfl⟩

theorem expandAll_congr (hw : w.definitions.Plain) (hs : w'.definitions = w.definitions)
    (ha : Ancestry w.definitions scope levels) (names : List String) :
    w'.expandAll (.own global) scope kind (names.map .text) =
      w.expandAll (.own global) scope kind (names.map .text) := by
  unfold expandAll expansionDepth
  simp only [List.mapM_map, Function.comp_def, hs, expand_congr hw hs ha]

theorem exists_inclusions_of_expandAll (hw : w.definitions.Plain)
    (ha : Ancestry w.definitions scope levels) {names : List String}
    (h : w.expandAll (.own global) scope kind (names.map .text) = .ok layers) :
    ∃ is, Inclusion.AllOf w.definitions global scope is names ∧
      layers = w.definitions.layersOf kind (some (w.definitions.nameOf scope))
        (Inclusion.traitsOfAll is) := by
  obtain ⟨parts, hparts, rfl⟩ := expandAll_eq_ok_iff.mp h
  exact exists_inclusions (hparts.imp fun n part hpart => exists_inclusion hw ha hpart)

/-- A level contributes its traits and then itself, whose hooks can be called. -/
theorem levelLayers_eq_ok_iff (hw : w.definitions.Plain)
    (ha : Ancestry w.definitions scope levels) :
    w.levelLayers (.own global) scope = .ok layers ↔
      ∃ definition traits, w.definitions.get? scope = some definition ∧
        w.expandAll (.own global) scope .trait (definition.applied.map .text) = .ok traits ∧
        definition.hooksCallable = true ∧
        layers = traits ++ [definition.layer .factory none] := by
  obtain ⟨t, ht⟩ := ha.template?_self
  obtain ⟨definition, hd, htemplate⟩ := Definitions.get?_of_template? ht
  have hplain := hw scope definition hd
  -- A level is a factory, so only its hooks can keep it from having a layer.
  have hfactory : definition.isFactory = true := by simp [Definition.isFactory, htemplate]
  simp only [levelLayers, hd, hfactory, Bool.not_true, Bool.false_eq_true, if_false, bind_eq_ok_iff,
    references_plain hplain, layerOf_plain hplain, Except.ok.injEq, Option.some.injEq,
    exists_eq_left']
  constructor
  · rintro ⟨traits, htraits, own, hown, h⟩
    split at hown
    · cases hown
      exact ⟨definition, traits, rfl, htraits, ‹_›, (Except.ok.inj h).symm⟩
    · cases hown
  · rintro ⟨_, traits, rfl, htraits, hcallable, rfl⟩
    exact ⟨traits, htraits, _, by rw [if_pos hcallable], rfl⟩

theorem levelLayers_kept (hw : w.definitions.Plain) (hw' : w'.definitions.Plain)
    (hk : w.definitions.KeepsRead w'.definitions global levels)
    (ha : Ancestry w.definitions scope levels)
    (h : w.levelLayers (.own global) scope = .ok layers) :
    w'.levelLayers (.own global) scope = .ok layers := by
  obtain ⟨definition, traits, hd, htraits, hcallable, rfl⟩ := (levelLayers_eq_ok_iff hw ha).mp h
  exact (levelLayers_eq_ok_iff hw' (hk.ancestry ha)).mpr
    ⟨definition, traits, hk.same scope definition (.inl ha.mem) hd,
      expandAll_kept hw hw' hk ha htraits, hcallable, rfl⟩

theorem levelLayers_congr (hw : w.definitions.Plain) (hs : w'.definitions = w.definitions)
    (ha : Ancestry w.definitions scope levels) :
    w'.levelLayers (.own global) scope = w.levelLayers (.own global) scope := by
  obtain ⟨t, ht⟩ := ha.template?_self
  obtain ⟨definition, hd, _⟩ := Definitions.get?_of_template? ht
  have hplain := hw scope definition hd
  -- The level's own layer is read off its definition; the rest are expansions.
  simp only [levelLayers, hs, hd, references_plain hplain, layerOf_plain hplain]
  simp only [bind, Except.bind, expandAll_congr hw hs ha]

end World

end TraitFactory
