import TraitFactory.Proofs.Anonymous
import TraitFactory.Proofs.Recompiling

/-!
# Traits applied twice

A trait that is applied at the end of a call has the last word, so it makes no difference to what a
plan holds if the trait has been applied earlier in the call as well; only the places of names and
callbacks may be others. Nothing at all is another when the trait is applied twice in a row.
-/

namespace TraitFactory

/-! ## 1. Blocks that stand twice -/

section Blocks

variable {α β : Type}

/-- **What is found from the top** is found in the block on top, or else as if that did not stand
further down as well. -/
theorem findSome?_repeated (f : α → Option β) (below block above : List α) :
    (below ++ block ++ above ++ block).reverse.findSome? f =
      (below ++ above ++ block).reverse.findSome? f := by
  simp only [List.reverse_append, List.findSome?_append]
  cases block.reverse.findSome? f with
  | none => simp
  | some x => rfl

/-- The last choice is what is found from the top. -/
theorem lastChoice_eq_findSome? (choices : List (Option α)) :
    lastChoice choices = choices.reverse.findSome? id := by
  induction choices using List.reverseRecOn with
  | nil => rfl
  | append_singleton choices c ih =>
    rw [lastChoice_append, ih, List.reverse_append, List.reverse_singleton, List.findSome?_append,
      List.findSome?_singleton]
    rfl

end Blocks

/-- Just those objects are kept that have not been seen before. -/
theorem mem_objects_keepFirst {seen : List ObjectId} {cs : List Callback} {o : ObjectId} :
    o ∈ (keepFirst seen cs).map (·.object) ↔ o ∉ seen ∧ o ∈ cs.map (·.object) := by
  have hmem : o ∈ (keepFirst seen cs).map (·.object) ↔
      0 < (keepFirst seen cs).countP (·.object = o) := by
    rw [List.countP_pos_iff, List.mem_map]
    simp only [decide_eq_true_eq]
  rw [hmem, countP_keepFirst]
  split
  · exact iff_of_true Nat.one_pos ‹_›
  · exact iff_of_false (Nat.lt_irrefl 0) ‹_›

/-- Callbacks that have all been there before add nothing. -/
theorem keepFirst_append_of_seen {seen : List ObjectId} {cs again : List Callback}
    (h : ∀ c ∈ again, c.object ∈ seen ∨ c.object ∈ cs.map (·.object)) :
    keepFirst seen (cs ++ again) = keepFirst seen cs := by
  induction cs generalizing seen with
  | nil =>
    rw [List.nil_append, keepFirst_eq, List.filter_eq_nil_iff.mpr]
    · rfl
    · intro c hc
      have hseen : c.object ∈ seen := (h c hc).resolve_right (by simp)
      simpa using hseen
  | cons c cs ih =>
    rw [List.cons_append, keepFirst, keepFirst]
    split
    · rename_i hseen
      refine ih fun c' hc' => ?_
      obtain h | h := h c' hc'
      · exact .inl h
      · obtain heq | h := List.mem_cons.mp h
        · exact .inl (heq ▸ hseen)
        · exact .inr h
    · congr 1
      refine ih fun c' hc' => ?_
      obtain h | h := h c' hc'
      · exact .inl (List.mem_cons_of_mem _ h)
      · obtain heq | h := List.mem_cons.mp h
        · exact .inl (heq ▸ List.mem_cons_self)
        · exact .inr h

/-! ## 2. Plans of such blocks -/

/-- **Plans that decide alike**: what each name is declared to be, what makes an instance and what
persists it, and which callbacks there are. -/
structure Plan.DecidesLike (p p' : Plan) : Prop where
  declarations : ∀ name, p'.declaration? name = p.declaration? name
  constructor : p'.constructor = p.constructor
  persistor : p'.persistor = p.persistor
  callbacks : ∀ o, o ∈ p'.callbacks.map (·.object) ↔ o ∈ p.callbacks.map (·.object)

/-- **Plans that list the same**, in the same order. -/
structure Plan.ListsLike (p p' : Plan) : Prop where
  attributes : p'.attributes = p.attributes
  callbacks : p'.callbacks = p.callbacks

namespace Plan

variable {factory : String} {model : Value} {traits traits' : List String}

/-- **A block on top has the last word**: it may as well not stand further down. -/
theorem decidesLike_repeated (below block above : List Layer) :
    (assemble factory model traits (below ++ block ++ above ++ block)).DecidesLike
      (assemble factory model traits' (below ++ above ++ block)) where
  declarations name := by
    rw [declaration?_assemble, declaration?_assemble, findSome?_repeated]
  constructor := by
    show lastChoice _ = lastChoice _
    simp only [lastChoice_eq_findSome?, List.map_append, findSome?_repeated]
  persistor := by
    show lastChoice _ = lastChoice _
    simp only [lastChoice_eq_findSome?, List.map_append, findSome?_repeated]
  callbacks o := by
    show o ∈ (keepFirst [] _).map _ ↔ o ∈ (keepFirst [] _).map _
    rw [mem_objects_keepFirst, mem_objects_keepFirst]
    simp only [List.flatMap_append, List.map_append, List.mem_append]
    grind

/-- **A block twice in a row** is the block once. -/
theorem listsLike_repeated (below block : List Layer) :
    (assemble factory model traits (below ++ block ++ block)).ListsLike
      (assemble factory model traits' (below ++ block)) where
  attributes := by
    have hget : (flatten (below ++ block)).get? = (flatten (below ++ block ++ block)).get? := by
      funext name
      have hfound := findSome?_repeated (·.declared? name) below block []
      rw [List.append_nil, List.append_nil] at hfound
      rw [get?_flatten, get?_flatten, hfound]
    have hnames : (flatten (below ++ block)).names = (flatten (below ++ block ++ block)).names := by
      -- All names of the block stand there already.
      have hnone : ((block.flatMap (·.attributes)).map (·.name)).removeAll
          (flatten (below ++ block)).names = [] := by
        rw [List.removeAll, List.filter_eq_nil_iff]
        intro name hname
        have hmem : name ∈ (flatten (below ++ block)).names := by
          rw [names_flatten, List.mem_eraseDups, List.flatMap_append, List.map_append]
          exact List.mem_append_right _ hname
        simpa using hmem
      rw [names_flatten_append (below ++ block), List.eraseDups_append, hnone,
        eraseDups_of_nodup (keyed_flatten _).2]
      simp
    show (flatten _).declarations = (flatten _).declarations
    rw [(keyed_flatten _).declarations_eq, (keyed_flatten _).declarations_eq, hnames, hget]
  callbacks := by
    show keepFirst [] ((below ++ block).flatMap _) = keepFirst [] ((below ++ block ++ block).flatMap _)
    have hstack : (below ++ block ++ block).flatMap (·.callbacks) =
        (below ++ block).flatMap (·.callbacks) ++ block.flatMap (·.callbacks) :=
      List.flatMap_append
    rw [hstack, keepFirst_append_of_seen]
    intro c hc
    rw [List.flatMap_append, List.map_append]
    exact .inr (List.mem_append_right _ (List.mem_map_of_mem hc))

end Plan

/-! ## 3. Traits applied again -/

theorem mem_groupCallbacks {c : Callback} {cs : List Callback} (h : c ∈ groupCallbacks cs) :
    c ∈ cs := by
  obtain ⟨e, -, hc⟩ := List.mem_flatMap.mp h
  exact (List.mem_filter.mp hc).1

theorem Definitions.mem_layersOf {ds : Definitions} {kind : LayerKind} {scope : Option String}
    {ts : List DefinitionId} {l : Layer} (h : l ∈ ds.layersOf kind scope ts) :
    ∃ d x, ds.get? d = some x ∧ l = x.layer kind scope := by
  obtain ⟨d, -, hl⟩ := List.mem_filterMap.mp h
  obtain ⟨x, hx, rfl⟩ := Option.map_eq_some_iff.mp hl
  exact ⟨d, x, hx, rfl⟩

/-- **Every layer of a stack** is what a definition contributes. -/
theorem Outline.mem_layers {ds : Definitions} {o : Outline} {l : Layer} (h : l ∈ o.layers ds) :
    ∃ d x kind scope, ds.get? d = some x ∧ l = x.layer kind scope := by
  have hof : ∀ {kind scope ts}, l ∈ ds.layersOf kind scope ts →
      ∃ d x kind scope, ds.get? d = some x ∧ l = x.layer kind scope := fun h => by
    obtain ⟨d, x, hx, hl⟩ := Definitions.mem_layersOf h
    exact ⟨d, x, _, _, hx, hl⟩
  obtain h | h := List.mem_append.mp h
  · obtain ⟨level, -, h⟩ := List.mem_flatMap.mp h
    obtain h | h := List.mem_append.mp h
    · exact hof h
    · exact hof h
  · exact hof h

namespace World

variable {w : World} {global : Table DefinitionId} {f : DefinitionId} {plan plan' : Plan}
  {names names' : List String}

/-- A callback of a compiled plan is one of a definition. -/
theorem owned_of_compile (hw : w.definitions.Plain)
    (h : w.compile (.own global) f names = .ok plan) {c : Callback} (hc : c ∈ plan.callbacks) :
    ∃ d x, w.definitions.get? d = some x ∧ c ∈ x.ownCallbacks := by
  obtain ⟨o, -, rfl⟩ := exists_outline hw h
  obtain ⟨l, hl, hc⟩ := List.mem_flatMap.mp ((sublist_keepFirst _ _).subset hc)
  obtain ⟨d, x, kind, scope, hx, rfl⟩ := Outline.mem_layers hl
  exact ⟨d, x, hx, mem_groupCallbacks hc⟩

/-- **Callbacks are told apart by their objects**, so plans that have the same objects of them have
the same callbacks. -/
theorem Marked.same_callbacks (hmarked : w.Marked) (hw : w.definitions.Plain)
    (h : w.compile (.own global) f names = .ok plan)
    (h' : w.compile (.own global) f names' = .ok plan')
    (hobjects : ∀ o ∈ plan.callbacks.map (·.object), o ∈ plan'.callbacks.map (·.object))
    {c : Callback} (hc : c ∈ plan.callbacks) : c ∈ plan'.callbacks := by
  obtain ⟨c', hc', hobject⟩ := List.mem_map.mp (hobjects _ (List.mem_map_of_mem hc))
  obtain ⟨d, x, hx, hown⟩ := owned_of_compile hw h hc
  obtain ⟨d', x', hx', hown'⟩ := owned_of_compile hw h' hc'
  obtain rfl := hmarked.apart d' d x' x hx' hx c' hown' c hown hobject
  obtain rfl := Option.some.inj (hx.symm.trans hx')
  rwa [← List.inj_on_of_nodup_map (hmarked.distinct d' x hx) hown' hown hobject]

/-- **A trait that is applied again at the end** makes a plan that decides like the one in which it
is applied there only; and one that lists the same, where it is applied twice in a row. -/
theorem compile_repeated (hw : w.definitions.Plain) {first second : List String} {t : String}
    (h : w.compile (.own global) f (first ++ [t] ++ second ++ [t]) = .ok plan) :
    ∃ plan', w.compile (.own global) f (first ++ second ++ [t]) = .ok plan' ∧
      plan.DecidesLike plan' ∧ (second = [] → plan.ListsLike plan') := by
  obtain ⟨levels, inherited, dynamic, ha, hinherited, hdynamic, rfl⟩ :=
    (compile_eq_ok_iff hw).mp h
  simp only [List.map_append, expandAll_append, bind_eq_ok_iff] at hdynamic
  obtain ⟨_, ⟨_, ⟨lower, hlower, block, hblock, hpure⟩, upper, hupper, hpure'⟩, block', hblock',
    hpure''⟩ := hdynamic
  cases hpure
  cases hpure'
  cases hpure''
  obtain rfl := Except.ok.inj (hblock.symm.trans hblock')
  have hcompile : w.compile (.own global) f (first ++ second ++ [t]) = .ok (Plan.assemble
      (w.definitions.nameOf f) ((w.definitions.model? f).getD .null) (first ++ second ++ [t])
      (inherited ++ (lower ++ upper ++ block))) := by
    refine (compile_eq_ok_iff hw).mpr ⟨levels, inherited, _, ha, hinherited, ?_, rfl⟩
    simp only [List.map_append, expandAll_append, bind_eq_ok_iff]
    exact ⟨_, ⟨lower, hlower, upper, hupper, rfl⟩, block, hblock, rfl⟩
  refine ⟨_, hcompile, ?_, ?_⟩
  · have hstack : inherited ++ (lower ++ block ++ upper ++ block) =
        inherited ++ lower ++ block ++ upper ++ block := by simp
    have hstack' : inherited ++ (lower ++ upper ++ block) = inherited ++ lower ++ upper ++ block := by
      simp
    rw [hstack, hstack']
    exact Plan.decidesLike_repeated _ _ _
  · rintro rfl
    obtain rfl : [] = upper := Except.ok.inj hupper
    have hstack : inherited ++ (lower ++ block ++ [] ++ block) =
        inherited ++ lower ++ block ++ block := by simp
    have hstack' : inherited ++ (lower ++ [] ++ block) = inherited ++ lower ++ block := by simp
    rw [hstack, hstack']
    exact Plan.listsLike_repeated _ _

end World

/-! ## 4. Calls -/

namespace World

/-- A factory that applies a trait, and another trait besides, all of which declare one name. -/
def echoed : World :=
  ((overlaid.after (.defineTrait (some (.registry ⟨0⟩)) (.text "u"))).after
    (.set (.builder ⟨2⟩) (.text "x") (some (.int 3)) .null)).after
    (.callback (.builder ⟨2⟩) (.keyword (.event .afterBuild)) (.type "list"))

theorem run_echoed : BuildingRun ⟨0⟩ fresh echoed := by
  refine declared_after ?_ (.callback (builds_of_builder (by decide +kernel)) _ _) trivial
    (fun _ => trivial) (by decide +kernel)
  refine declared_after ?_ (.set (builds_of_builder (by decide +kernel)) _ _ _) trivial
    (fun _ => trivial) (by decide +kernel)
  refine declared_after ?_ (.defineTrait (by rfl) _) trivial (fun _ => trivial) (by decide +kernel)
  refine declared_after ?_ (.callback (builds_of_builder (by decide +kernel)) _ _) trivial
    (fun _ => trivial) (by decide +kernel)
  refine declared_after ?_ (.set (builds_of_builder (by decide +kernel)) _ _ _) trivial
    (fun _ => trivial) (by decide +kernel)
  refine applied_after ?_ (builds_of_builder (by decide +kernel)) (by decide +kernel)
  refine declared_after ?_ (.defineFactory (by rfl) _ _ _ _) trivial (fun _ p hp => by cases hp)
    (by decide +kernel)
  refine declared_after ?_ (.callback (builds_of_builder (by decide +kernel)) _ _) trivial
    (fun _ => trivial) (by decide +kernel)
  refine declared_after ?_ (.set (builds_of_builder (by decide +kernel)) _ _ _) trivial
    (fun _ => trivial) (by decide +kernel)
  exact declared_after .refl (.defineTrait (by rfl) _) trivial (fun _ => trivial)
    (by decide +kernel)

end World

namespace Action

variable {r : RegistryId} {w₀ w : World} {f : DefinitionId}

/-- **The last application of a trait decides.** In every world that proper declarations lead to,
where a registered factory compiles with call-time traits of which the last is applied earlier as
well, it compiles without that earlier application, too. Both plans give every name the same
declaration and have the same constructor and persistor; and they have the same callbacks, object by
object, which are the same callbacks where definitions tell theirs apart. If the trait is applied
twice in a row, attributes and callbacks also stand in the same order. -/
theorem last_application_decides (hstart : w₀.Neat r {}) (horderly : (w₀.catalogue r).Orderly)
    (hrun : BuildingRun r w₀ w) (hf : w.Registered r f) (first second : List String) (t : String) :
    ∃ outcome outcome', Compiles r w f (first ++ [t] ++ second ++ [t]) outcome ∧
      Compiles r w f (first ++ second ++ [t]) outcome' ∧
      ∀ plan, outcome = .ok plan → ∃ plan', outcome' = .ok plan' ∧ plan.DecidesLike plan' ∧
        (w.Marked → ∀ c, c ∈ plan'.callbacks ↔ c ∈ plan.callbacks) ∧
        (second = [] → plan.ListsLike plan') := by
  obtain ⟨reg, h, ho⟩ := World.orderly_run (World.tracked_new hstart) horderly hrun
  refine ⟨_, _, compiles_of_orderly h ho hf _, compiles_of_orderly h ho hf _, fun plan hplan => ?_⟩
  obtain ⟨plan', hplan', hdecides, hlists⟩ := World.compile_repeated h.neat.definitions hplan
  refine ⟨plan', hplan', hdecides, fun hmarked c => ⟨fun hc => ?_, fun hc => ?_⟩, hlists⟩
  · exact hmarked.same_callbacks h.neat.definitions hplan' hplan
      (fun o => (hdecides.callbacks o).mp) hc
  · exact hmarked.same_callbacks h.neat.definitions hplan hplan'
      (fun o => (hdecides.callbacks o).mpr) hc

/-- **A trait before and after another** has the last word on the name that both declare. -/
theorem last_application_decides_echoed : ∃ plan plan',
    ComesTo ⟨0⟩ (.text "f") (some (.text "tut")) World.echoed (.ok plan) ∧
    ComesTo ⟨0⟩ (.text "f") (some (.text "ut")) World.echoed (.ok plan') ∧
    plan.layers.map (·.name) = ["t", "f", "t", "u", "t"] ∧
    plan.attributes.map (fun d => (d.name, d.origin)) = [("x", "trait:t")] ∧
    plan.callbacks.map (·.owner) = ["trait:t", "factory:f", "trait:u"] ∧
    plan.DecidesLike plan' ∧ ∀ c, c ∈ plan'.callbacks ↔ c ∈ plan.callbacks := by
  have hfactory : World.echoed.Registered ⟨0⟩ ⟨1⟩ := ⟨"f", by decide +kernel⟩
  have hmarked : World.echoed.Marked := by
    have hadvanced : World.fresh.Advanced World.echoed := by
      refine World.advanced_after (World.advanced_after (World.advanced_after
        World.advanced_overlaid ?_ ?_) ?_ ?_) ?_ ?_ <;> first | exact trivial | rfl
    exact (World.blank_fresh.marked.advanced World.blank_fresh.ordinary hadvanced).1
  obtain ⟨outcome, outcome', hcompiles, hcompiles', hdecides⟩ := last_application_decides
    World.neat_fresh World.orderly_fresh World.run_echoed hfactory [] ["u"] "t"
  have hcomes := hcompiles.planOf_eq (.text "f") (some (.text "tut")) (by decide +kernel)
  have hcomes' := hcompiles'.planOf_eq (.text "f") (some (.text "ut")) (by decide +kernel)
  have hshown : (planOf ⟨0⟩ (.text "f") (some (.text "tut")) World.echoed).toOption.join.map
      (fun plan => (plan.layers.map (·.name),
        plan.attributes.map fun d => (d.name, d.origin), plan.callbacks.map (·.owner))) =
      some (["t", "f", "t", "u", "t"], [("x", "trait:t")],
        ["trait:t", "factory:f", "trait:u"]) := by decide +kernel
  rw [hcomes] at hshown
  cases outcome with
  | error e => cases hshown
  | ok plan =>
    obtain ⟨plan', rfl, hlike, hcallbacks, -⟩ := hdecides plan rfl
    obtain ⟨hlayers, hattributes, howners⟩ := Prod.mk.inj (Option.some.inj hshown) |>.imp_right
      Prod.mk.inj
    exact ⟨plan, plan', hcomes, hcomes', hlayers, hattributes, howners, hlike,
      hcallbacks hmarked⟩

end Action

end TraitFactory
