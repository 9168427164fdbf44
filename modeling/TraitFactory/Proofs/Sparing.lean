import TraitFactory.Proofs.Agreeing
import TraitFactory.Proofs.Cataloguing

/-!
# Changes that spare what is compiled

A change of a catalogue spares some definitions when each of them contributes what it did and no
factory is lost. What is compiled from spared definitions is another only if a visited reference
resolves otherwise than before. Where all that changes in the tables is that one of them has gained
a trait under a free name, that takes a reference which resolved above that table.
-/

namespace TraitFactory

/-! ## 1. Spared definitions -/

theorem Definition.Alike.trans {d d' d'' : Definition} (h : d.Alike d') (h' : d'.Alike d'') :
    d.Alike d'' :=
  ⟨h'.applied.trans h.applied, fun kind scope => (h'.layer kind scope).trans (h.layer kind scope),
    h'.model.trans h.model⟩

/-- A definition's own table of traits is read when names are looked up, and not otherwise. -/
theorem Definition.alike_withLocal (x : Definition) (name : String) (t : DefinitionId) :
    x.Alike (x.withLocal name t) := by
  refine ⟨rfl, fun _ _ => rfl, ?_⟩
  rw [withLocal, modifyTemplate, Option.map_map]
  rfl

namespace Definitions.SameAt

variable {ds ds' ds'' : Definitions} {d : DefinitionId}

theorem trans (h : ds.SameAt ds' d) (h' : ds'.SameAt ds'' d) : ds.SameAt ds'' d := by
  intro x hx
  obtain ⟨x', hx', halike⟩ := h x hx
  obtain ⟨x'', hx'', halike'⟩ := h' x' hx'
  exact ⟨x'', hx'', halike.trans halike'⟩

theorem of_growsTo (h : ds.GrowsTo ds') : ds.SameAt ds' d := fun x hx => ⟨x, h.2 d x hx, .refl x⟩

end Definitions.SameAt

namespace Catalogue

/-- **A change that spares certain definitions**: they contribute what they did, and no factory
that was registered is lost. -/
structure Spares (reads : DefinitionId → Prop) (c c' : Catalogue) : Prop where
  holdsTo : c.definitions.HoldsTo c'.definitions
  size : c.definitions.size ≤ c'.definitions.size
  sameAt : ∀ d, reads d → c.definitions.SameAt c'.definitions d
  factories : ∀ name f, c.factories.get? name = some f → c'.factories.get? name = some f

variable {reads : DefinitionId → Prop} {c c' c'' : Catalogue} {d f t : DefinitionId}
  {x : Definition} {name : String} {site : Option DefinitionId}

theorem Spares.trans (h : Spares reads c c') (h' : Spares reads c' c'') : Spares reads c c'' where
  holdsTo d x hx := by
    obtain ⟨x', hx', hname, hparent⟩ := h.holdsTo d x hx
    obtain ⟨x'', hx'', hname', hparent'⟩ := h'.holdsTo d x' hx'
    exact ⟨x'', hx'', hname'.trans hname, hparent'.trans hparent⟩
  size := Nat.le_trans h.size h'.size
  sameAt d hd := (h.sameAt d hd).trans (h'.sameAt d hd)
  factories name f hf := h'.factories name f (h.factories name f hf)

theorem spares_altered (h : Altered d c c') (hd : ¬ reads d) : Spares reads c c' where
  holdsTo := h.holdsTo
  size := Nat.le_of_eq h.size.symm
  sameAt e he x hx := by
    have hne : e ≠ d := fun heq => hd (heq ▸ he)
    exact ⟨x, (h.others e hne).trans hx, .refl x⟩
  factories _ _ hf := h.factories ▸ hf

theorem spares_make (c : Catalogue) (x : Definition) : Spares reads c (c.make x) where
  holdsTo := holdsTo_make c x
  size := (Definitions.growsTo_push _ x).1
  sameAt _ _ := .of_growsTo (Definitions.growsTo_push _ x)
  factories _ _ hf := hf

theorem spares_enrol (hfree : c.factories.get? name = none) : Spares reads c (c.enrol name f) where
  holdsTo := .of_growsTo (.refl _)
  size := Nat.le_refl _
  sameAt _ _ := .of_growsTo (.refl _)
  factories name' f' hf' := by
    have hne : name' ≠ name := by
      rintro rfl
      rw [hfree] at hf'
      cases hf'
    exact (Table.get?_insert_of_ne _ _ hne).trans hf'

theorem spares_place (c : Catalogue) (site : Option DefinitionId) (name : String)
    (t : DefinitionId) : Spares reads c (c.place site name t) where
  holdsTo := holdsTo_place c site name t
  size := Nat.le_of_eq (size_place c site name t).symm
  sameAt d _ x hx := by
    cases site with
    | none => exact ⟨x, hx, .refl x⟩
    | some g =>
      rw [get?_place_some, hx]
      split
      · exact ⟨_, rfl, x.alike_withLocal name t⟩
      · exact ⟨x, rfl, .refl x⟩
  factories _ _ hf := by cases site <;> exact hf

/-! ## 2. References that resolve as before -/

/-- What is found in the first of some places is the same when every place holds the same. -/
theorem findSome?_at?_congr {levels : List DefinitionId}
    (h : ∀ l ∈ levels, c'.at? (some l) name = c.at? (some l) name) :
    levels.findSome? (fun l => c'.at? (some l) name) =
      levels.findSome? fun l => c.at? (some l) name := by
  rw [← List.head?_filterMap, ← List.head?_filterMap, List.filterMap_congr h]

/-- A name is visible from a factory as before when the tables of its levels and the global one
hold the same under it. -/
theorem visible?_congr {scope : DefinitionId} {levels : List DefinitionId}
    (hold : c.definitions.HoldsTo c'.definitions) (ha : Ancestry c.definitions scope levels)
    (h : ∀ site, (∀ l, site = some l → l ∈ levels) → c'.at? site name = c.at? site name) :
    c'.definitions.visible? c'.traits scope name = c.definitions.visible? c.traits scope name := by
  have hlocal := findSome?_at?_congr fun l hl => h (some l) fun _ heq => Option.some.inj heq ▸ hl
  rw [visible?_eq, visible?_eq, Definitions.levels_of_ancestry ha,
    Definitions.levels_of_ancestry (hold.ancestry ha), hlocal, h none fun _ heq => nomatch heq]

/-- **A table has gained a trait under a free name**, and nothing else has changed in any table. -/
structure Gains (site : Option DefinitionId) (name : String) (c c' : Catalogue) : Prop where
  free : c.at? site name = none
  others : ∀ site' name', (site' = site → name' ≠ name) → c'.at? site' name' = c.at? site' name'

/-- **A reference that resolves above a factory's table**: the tables from where it is looked up
through this one have nothing under its name, and its trait stands in the table of an older level
or in the global one. -/
def ResolvesAbove (c : Catalogue) (g : DefinitionId) (v : Reference) : Prop :=
  ∃ nearer older, c.definitions.levels v.scope = nearer ++ g :: older ∧
    (∀ l ∈ nearer ++ [g], c.at? (some l) v.name = none) ∧
    ∃ t site, v.target? c.definitions c.traits = some t ∧ c.at? site v.name = some t ∧
      ∀ l, site = some l → l ∈ older

/-- **Only references that resolved above the table that has gained a trait resolve otherwise**,
among those that resolved at all. -/
theorem Gains.resolvesAbove (h : Gains site name c c')
    (hold : c.definitions.HoldsTo c'.definitions) {v : Reference} {levels : List DefinitionId}
    (ha : Ancestry c.definitions v.scope levels)
    (hv : v.target? c.definitions c.traits = some t)
    (hne : v.target? c'.definitions c'.traits ≠ v.target? c.definitions c.traits) :
    v.name = name ∧ ∃ g, site = some g ∧ c.ResolvesAbove g v := by
  have hname : v.name = name := by
    by_contra hname
    exact hne (visible?_congr hold ha fun site' _ => h.others site' _ fun _ => hname)
  have hlevels := Definitions.levels_of_ancestry ha
  have hfree : c.at? site v.name = none := hname ▸ h.free
  have hothers : ∀ site', site' ≠ site → c'.at? site' v.name = c.at? site' v.name :=
    fun site' hsite => h.others site' _ fun heq => absurd heq hsite
  have hlookup := hv
  rw [Reference.target?, visible?_eq, hlevels] at hlookup
  -- What is found in nearer tables, before the one that has changed, is found there as before.
  have hnearer : ∀ nearer older, levels = nearer ++ older → (∀ l ∈ nearer, some l ≠ site) →
      nearer.findSome? (fun l => c.at? (some l) v.name) = none := by
    intro nearer older heq hnot
    by_contra hsome
    obtain ⟨u, hu⟩ := Option.ne_none_iff_exists'.mp hsome
    have hu' := (findSome?_at?_congr fun l hl => hothers (some l) (hnot l hl)).trans hu
    refine hne ?_
    rw [Reference.target?, Reference.target?, visible?_eq, visible?_eq, hlevels,
      Definitions.levels_of_ancestry (hold.ancestry ha), heq, List.findSome?_append,
      List.findSome?_append, hu, hu']
    rfl
  refine ⟨hname, ?_⟩
  cases site with
  | none =>
    -- The reference resolves in the table of some level, since the global one has nothing.
    have hnone := hnearer levels [] (List.append_nil _).symm fun l _ => Option.some_ne_none l
    rw [hnone, hfree] at hlookup
    cases hlookup
  | some g =>
    have hg : g ∈ levels := by
      by_contra hg
      refine hne (visible?_congr hold ha fun site' hsite => hothers site' ?_)
      rintro rfl
      exact hg (hsite g rfl)
    obtain ⟨nearer, older, rfl⟩ := List.mem_iff_append.mp hg
    have hgnearer : g ∉ nearer := fun hmem => by
      have hdisjoint := (List.nodup_append.mp ha.nodup).2.2
      exact hdisjoint g hmem g List.mem_cons_self rfl
    have hnone := hnearer nearer (g :: older) rfl fun l hl heq =>
      hgnearer (Option.some.inj heq ▸ hl)
    refine ⟨g, rfl, nearer, older, hlevels, fun l hl => ?_, t, ?_⟩
    · obtain hl | hl := List.mem_append.mp hl
      · exact List.findSome?_eq_none_iff.mp hnone l hl
      · exact List.mem_singleton.mp hl ▸ hfree
    · rw [List.findSome?_append, hnone, Option.none_or, List.findSome?_cons, hfree,
        Option.or_eq_some_iff] at hlookup
      obtain holder | ⟨_, hglobal⟩ := hlookup
      · obtain ⟨l, hl, hat⟩ := List.exists_of_findSome?_eq_some holder
        exact ⟨some l, hv, hat, fun _ heq => Option.some.inj heq ▸ hl⟩
      · exact ⟨none, hv, hglobal, fun l heq => absurd heq.symm (Option.some_ne_none l)⟩

end Catalogue

/-! ## 3. Compilations -/

/-- Where there are trees of traits for the references, every visited reference resolves. -/
theorem Visits.resolved {ds : Definitions} {global : Table DefinitionId} {scope : DefinitionId}
    {trail : List DefinitionId} {names : List String} {vs : List Reference}
    (h : Visits ds global scope trail names vs) {is : List Inclusion}
    (his : Inclusion.AllOf ds global scope is names) {v : Reference} (hv : v ∈ vs) :
    ∃ t, v.target? ds global = some t := by
  induction h generalizing is with
  | nil => cases hv
  | missing hvisible _ ih =>
    obtain _ | ⟨⟨t, parts⟩, is⟩ := is
    · exact his.elim
    · cases hvisible.symm.trans his.1.1
  | cyclic hvisible _ _ ih =>
    obtain _ | ⟨i, is⟩ := is
    · exact his.elim
    obtain rfl | hv := List.mem_cons.mp hv
    · exact ⟨_, hvisible⟩
    · exact ih his.2 hv
  | opened hvisible _ hd _ _ ihinner ihrest =>
    obtain _ | ⟨⟨t, parts⟩, is⟩ := is
    · exact his.elim
    obtain ⟨⟨ht, definition, hdefinition, hparts⟩, hrest⟩ := his
    obtain rfl := Option.some.inj (hvisible.symm.trans ht)
    obtain rfl := Option.some.inj (hd.symm.trans hdefinition)
    obtain rfl | hv := List.mem_cons.mp hv
    · exact ⟨_, hvisible⟩
    · exact (List.mem_append.mp hv).elim (ihinner hparts) (ihrest hrest)

theorem VisitsLevels.resolved {ds : Definitions} {global : Table DefinitionId}
    {levels : List Level} {vs : List Reference}
    (h : VisitsLevels ds global (levels.map (·.factory)) vs) (hof : ∀ l ∈ levels, l.Of ds global)
    {v : Reference} (hv : v ∈ vs) : ∃ t, v.target? ds global = some t := by
  induction levels generalizing vs with
  | nil =>
    cases h
    cases hv
  | cons l levels ih =>
    obtain _ | ⟨hd, habove, hown⟩ := h
    obtain ⟨definition, hdefinition, hincludes⟩ := hof l List.mem_cons_self
    obtain rfl := Option.some.inj (hd.symm.trans hdefinition)
    obtain hv | hv := List.mem_append.mp hv
    · exact ih habove (fun l hl => hof l (List.mem_cons_of_mem _ hl)) hv
    · exact hown.resolved hincludes hv

namespace World

variable {w w' : World} {r : RegistryId} {reg reg' : Registry} {f : DefinitionId}
  {levels : List DefinitionId} {dynamic : List String} {vs : List Reference}

/-- **Every reference that a successful compilation visits resolves.** -/
theorem resolved_of_compile {global : Table DefinitionId} (hw : w.definitions.Plain) {plan : Plan}
    (hplan : w.compile (.own global) f dynamic = .ok plan)
    (hvs : Visited w.definitions global f dynamic vs) {v : Reference} (hv : v ∈ vs) :
    ∃ t, v.target? w.definitions global = some t := by
  obtain ⟨o, ho, _⟩ := exists_outline hw hplan
  obtain ⟨levels, above, own, ha, habove, hown, rfl⟩ := hvs
  obtain rfl := ha.unique ho.ancestry
  obtain hv | hv := List.mem_append.mp hv
  · exact habove.resolved ho.levels hv
  · exact hown.resolved ho.dynamic hv

/-- **What a compilation reads** in a catalogue: the levels of its factory, and the traits that are
visible from them. -/
def Reads (w : World) (r : RegistryId) (f : DefinitionId) : DefinitionId → Prop :=
  w.definitions.Reads (w.catalogue r).traits (w.definitions.levels f)

/-- **A compilation that is spared comes to the same** when every visited reference resolves as
before. -/
theorem compile_eq_of_spares (hn : w.Neat r reg) (hn' : w'.Neat r reg')
    (hf : (w.catalogue r).Founded) (ha : Ancestry w.definitions f (w.definitions.levels f))
    (hs : (w.catalogue r).Spares (w.Reads r f) (w'.catalogue r))
    (hvs : Visited w.definitions reg.globals f dynamic vs)
    (htarget : ∀ v ∈ vs, v.target? w'.definitions reg'.globals =
      v.target? w.definitions reg.globals) :
    w'.compile (.own reg'.globals) f dynamic = w.compile (.own reg.globals) f dynamic := by
  have hstocked : w.definitions.Stocked reg.globals := hn.traits_eq ▸ hf.stocked
  refine compile_eq_of_sameAt hn.definitions hn'.definitions hs.size hstocked ha
    (hs.holdsTo.ancestry ha) (fun d hd => hs.sameAt d ?_) hvs htarget
  rwa [Reads, hn.traits_eq]

end World

end TraitFactory
