import TraitFactory.Proofs.Outline

/-!
# What a stack flattens to

A plan holds one declaration for each name. It is the last one that the stack has for the name:
sets of attributes keep one declaration under each name, a set merged over others wins, and layers
are merged one over another. For the layers of an outline this is what the search from the top
finds.
-/

namespace TraitFactory

/-! ## 1. Sets of attributes -/

namespace AttributeSet

variable {s : AttributeSet}

theorem keyed_empty : (∅ : AttributeSet).Keyed :=
  ⟨fun _ h => (List.not_mem_nil h).elim, List.nodup_nil⟩

theorem eq_of_mem_insertEntry {k : String} {d : Declaration} {e : String × Declaration}
    {es : List (String × Declaration)} (h : e ∈ Table.insertEntry k d es) :
    e = (k, d) ∨ e ∈ es := by
  induction es with
  | nil => exact .inl (by simpa [Table.insertEntry] using h)
  | cons e' es ih =>
    obtain ⟨k', d'⟩ := e'
    by_cases hk : k' = k
    · simp only [Table.insertEntry, hk, if_true, List.mem_cons] at h
      rcases h with h | h
      · exact .inl h
      · exact .inr (List.mem_cons_of_mem _ h)
    · simp only [Table.insertEntry, hk, if_false, List.mem_cons] at h
      rcases h with rfl | h
      · exact .inr List.mem_cons_self
      · exact (ih h).imp_right (List.mem_cons_of_mem _)

/-- Declaring keeps every declaration under its own name, and each name once. -/
theorem Keyed.declare (h : s.Keyed) (d : Declaration) : (s.declare d).Keyed := by
  refine ⟨fun e he => ?_, ?_⟩
  · rcases eq_of_mem_insertEntry he with rfl | he
    · rfl
    · exact h.1 e he
  · rw [names_declare]
    by_cases hn : d.name ∈ s.names
    · rw [if_pos hn]
      exact h.2
    · rw [if_neg hn]
      exact h.2.append (List.nodup_singleton _) (by simpa using hn)

theorem Keyed.foldl (h : s.Keyed) (ds : List Declaration) :
    (ds.foldl AttributeSet.declare s).Keyed := by
  induction ds generalizing s with
  | nil => exact h
  | cons d ds ih => exact ih (h.declare d)

theorem keyed_ofList (ds : List Declaration) : (ofList ds).Keyed := keyed_empty.foldl ds

theorem keyed_mergeOver (s : AttributeSet) (others : List Declaration) :
    (s.mergeOver others).Keyed := (keyed_ofList others).foldl s.declarations

/-- Of several declarations of one name the last counts. -/
theorem get?_foldl (s : AttributeSet) (ds : List Declaration) (name : String) :
    (ds.foldl declare s).get? name = (ds.reverse.find? (·.name = name)).or (s.get? name) := by
  induction ds generalizing s with
  | nil => rfl
  | cons d ds ih =>
    -- The first declaration counts only when none of the later ones has its name.
    rw [List.foldl_cons, ih, List.reverse_cons, List.find?_append, Option.or_assoc]
    congr 1
    by_cases hd : d.name = name
    · subst hd
      simp
    · rw [get?_declare_of_ne (Ne.symm hd)]
      simp [hd]

theorem get?_ofList (ds : List Declaration) (name : String) :
    (ofList ds).get? name = ds.reverse.find? (·.name = name) := by
  rw [ofList, get?_foldl]
  exact Option.or_none

/-- The declarations of a set are found under their names. -/
theorem Keyed.find?_declarations (h : s.Keyed) (name : String) :
    s.declarations.find? (·.name = name) = s.get? name := by
  have hentries := h.1
  unfold declarations Table.values get? Table.get?
  -- A fact about lists of entries: each stands under the name of its declaration.
  generalize s.table.entries = entries at hentries ⊢
  induction entries with
  | nil => rfl
  | cons e es ih =>
    have hkey : e.1 = e.2.name := hentries e (by simp)
    have ih := ih fun e' he' => hentries e' (by simp [he'])
    by_cases hname : e.2.name = name
    · simp [hkey, hname]
    · simpa [hkey, hname] using ih

/-- Each name is declared once, so the last declaration of a name is the first. -/
theorem Keyed.find?_reverse (h : s.Keyed) (name : String) :
    s.declarations.reverse.find? (·.name = name) = s.get? name := by
  rw [← h.find?_declarations name]
  -- No two declarations have one name, so it does not matter from where they are searched.
  have hnodup : (s.declarations.map (·.name)).Nodup := by
    have hnames : s.declarations.map (·.name) = s.names := by
      simp only [declarations, Table.values, names, Table.keys, List.map_map]
      exact List.map_congr_left fun e he => (h.1 e he).symm
    exact hnames ▸ h.2
  generalize s.declarations = ds at hnodup ⊢
  induction ds with
  | nil => rfl
  | cons d ds ih =>
    obtain ⟨hd, hds⟩ := List.nodup_cons.mp hnodup
    rw [List.reverse_cons, List.find?_append, ih hds]
    by_cases hname : d.name = name
    · have hnone : ds.find? (·.name = name) = none :=
        List.find?_eq_none.mpr fun d' hd' h' =>
          hd (List.mem_map.mpr ⟨d', hd', (of_decide_eq_true h').trans hname.symm⟩)
      simp [hnone, hname]
    · simp [hname]

/-- A set on top of other declarations wins. -/
theorem get?_mergeOver {s : AttributeSet} (h : s.Keyed) (others : List Declaration)
    (name : String) :
    (s.mergeOver others).get? name =
      (s.get? name).or (others.reverse.find? (·.name = name)) := by
  rw [mergeOver, get?_foldl, h.find?_reverse, get?_ofList]

end AttributeSet

/-! ## 2. Stacks and plans -/

/-- The declaration that a layer has for a name: its last one. -/
def Layer.declared? (l : Layer) (name : String) : Option Declaration :=
  l.attributes.reverse.find? (·.name = name)

namespace Plan

/-- A plan's attributes are the declarations of a set. -/
def Flat (p : Plan) : Prop := ∃ s : AttributeSet, s.Keyed ∧ p.attributes = s.declarations

theorem Flat.find?_reverse {p : Plan} (h : p.Flat) (name : String) :
    p.attributes.reverse.find? (·.name = name) = p.declaration? name := by
  obtain ⟨s, hs, hp⟩ := h
  rw [declaration?, hp, hs.find?_reverse, hs.find?_declarations]

/-- Layers put over what is below win, and the last of them first. -/
theorem get?_foldl_layers (layers : List Layer) {below : AttributeSet} (hb : below.Keyed)
    (name : String) :
    (layers.foldl (fun below l => (AttributeSet.ofList l.attributes).mergeOver below.declarations)
      below).get? name = (layers.reverse.findSome? (·.declared? name)).or (below.get? name) := by
  induction layers generalizing below with
  | nil => rfl
  | cons l ls ih =>
    have hl := AttributeSet.keyed_ofList l.attributes
    -- What has been merged so far is below the layers that are left.
    rw [List.foldl_cons, ih (AttributeSet.keyed_mergeOver _ _), AttributeSet.get?_mergeOver hl,
      AttributeSet.get?_ofList, hb.find?_reverse, List.reverse_cons, List.findSome?_append,
      Option.or_assoc, List.findSome?_singleton]
    rfl

theorem keyed_flatten (layers : List Layer) : (flatten layers).Keyed := by
  unfold flatten
  rcases List.eq_nil_or_concat layers with rfl | ⟨ls, l, rfl⟩
  · exact AttributeSet.keyed_empty
  · rw [List.concat_eq_append, List.foldl_append]
    exact AttributeSet.keyed_mergeOver _ _

theorem flat_assemble (factory : String) (model : Value) (traits : List String)
    (layers : List Layer) : (assemble factory model traits layers).Flat :=
  ⟨flatten layers, keyed_flatten layers, rfl⟩

theorem get?_flatten (layers : List Layer) (name : String) :
    (flatten layers).get? name = layers.reverse.findSome? (·.declared? name) := by
  rw [flatten, get?_foldl_layers layers AttributeSet.keyed_empty]
  exact Option.or_none

/-- **A compiled plan holds, for each name, what the last layer holds that has the name.** -/
theorem declaration?_assemble (factory : String) (model : Value) (traits : List String)
    (layers : List Layer) (name : String) :
    (assemble factory model traits layers).declaration? name =
      layers.reverse.findSome? (·.declared? name) := by
  rw [← get?_flatten]
  exact (keyed_flatten layers).find?_declarations name

/-- Overrides come before all that a plan lists, the last of them first. -/
theorem declaration?_withOverrides_or (p : Plan) (declarations : List Declaration)
    (constructor persistor : Option Value) (name : String) :
    (p.withOverrides declarations constructor persistor).declaration? name =
      (declarations.reverse.find? (·.name = name)).or
        (p.attributes.reverse.find? (·.name = name)) := by
  have hkeyed := AttributeSet.keyed_mergeOver (AttributeSet.ofList declarations) p.attributes
  show ((AttributeSet.ofList declarations).mergeOver p.attributes).declarations.find? _ = _
  rw [hkeyed.find?_declarations, AttributeSet.get?_mergeOver (AttributeSet.keyed_ofList _),
    AttributeSet.get?_ofList]

/-- **Overrides come before all that the plan holds**, the last of them first. -/
theorem declaration?_withOverrides {p : Plan} (h : p.Flat) (declarations : List Declaration)
    (constructor persistor : Option Value) (name : String) :
    (p.withOverrides declarations constructor persistor).declaration? name =
      (declarations.reverse.find? (·.name = name)).or (p.declaration? name) := by
  rw [declaration?_withOverrides_or, h.find?_reverse]

end Plan

/-! ## 3. Outlines -/

namespace Definitions

variable {ds : Definitions}

/-- A definition's own declaration of a name. -/
def declared? (ds : Definitions) (name : String) (d : DefinitionId) : Option Declaration :=
  (ds.get? d).bind (·.declared? name)

theorem declared?_layer {definition : Definition} (h : definition.Plain) (kind : LayerKind)
    (scope : Option String) (name : String) :
    (definition.layer kind scope).declared? name = definition.declared? name := by
  obtain ⟨s, hs, hkeyed⟩ := h.attributes
  have hown : definition.ownAttributes = s := by simp [Definition.ownAttributes, hs]
  simp only [Layer.declared?, Definition.layer, Definition.declared?, hown]
  exact hkeyed.find?_reverse name

/-- The last layer that has a name belongs to the last definition that declares it. -/
theorem findSome?_layersOf (h : ds.Plain) (kind : LayerKind) (scope : Option String)
    (name : String) (ts : List DefinitionId) :
    (ds.layersOf kind scope ts).reverse.findSome? (·.declared? name) =
      ts.reverse.findSome? (ds.declared? name) := by
  induction ts with
  | nil => rfl
  | cons t ts ih =>
    rw [← List.singleton_append, layersOf_append, List.reverse_append, List.reverse_append,
      List.findSome?_append, List.findSome?_append, ih]
    congr 1
    cases hd : ds.get? t with
    | none => simp [layersOf, declared?, hd]
    | some definition => simp [layersOf, declared?, hd, declared?_layer (h t definition hd)]

end Definitions

namespace Outline

variable {ds : Definitions}

/-- A level's layers hold for a name what a search of the level finds. -/
theorem findSome?_level (h : ds.Plain) (l : Level) (name : String) :
    (l.layers ds).reverse.findSome? (·.declared? name) = l.search (ds.declared? name) := by
  rw [Level.layers, List.reverse_append, List.findSome?_append, Definitions.findSome?_layersOf h,
    Definitions.findSome?_layersOf h, Level.search, Inclusion.findLast?_eq_findSome?]
  simp

/-- **The last layer of the stack that has a name holds what the search from the top finds.** -/
theorem findSome?_layers (h : ds.Plain) (o : Outline) (name : String) :
    (o.layers ds).reverse.findSome? (·.declared? name) = o.search (ds.declared? name) := by
  -- The stack is turned round twice: its levels, and the layers of each.
  have hlevels : (o.levels.reverse.flatMap (Level.layers ds)).reverse.findSome?
      (·.declared? name) = o.levels.findSome? (Level.search (ds.declared? name)) := by
    induction o.levels with
    | nil => rfl
    | cons l ls ih =>
      rw [List.reverse_cons, List.flatMap_append, List.reverse_append, List.findSome?_append, ih,
        List.flatMap_singleton, findSome?_level h, List.findSome?_cons]
      cases l.search (ds.declared? name) <;> rfl
  rw [layers, List.reverse_append, List.findSome?_append, hlevels,
    Definitions.findSome?_layersOf h, search, Inclusion.findLast?_eq_findSome?]

end Outline

end TraitFactory
