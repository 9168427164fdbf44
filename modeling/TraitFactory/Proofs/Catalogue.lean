import TraitFactory.Proofs.Caching
import TraitFactory.Proofs.Visiting

/-!
# Catalogues

A registry seen as what its compilations read: the store of definitions, the table of factories,
and the tables of traits, of which one is global and every factory has one. Declarations change it
in five ways only: a definition is altered, made, registered as a factory, put in a table of traits,
or everything is forgotten. Two invariants carry what is said about compilations. In a *founded*
catalogue every factory has an ancestry and every table names definitions that are there; in an
*orderly* one every trait stands in one table, and parents are registered themselves.
-/

namespace TraitFactory

/-! ## 1. Catalogues and their changes -/

namespace Definition

/-- A definition with one more trait in its own table, if it has one. -/
def withLocal (x : Definition) (name : String) (t : DefinitionId) : Definition :=
  x.modifyTemplate fun template =>
    { template with traits := template.traits.modify (·.insert name t) }

theorem parent_withLocal (x : Definition) (name : String) (t : DefinitionId) :
    (x.withLocal name t).template.map (·.parent) = x.template.map (·.parent) := by
  rw [withLocal, modifyTemplate, Option.map_map]
  rfl

theorem localTrait?_withLocal (x : Definition) (name : String) (t : DefinitionId)
    (name' : String) : (x.withLocal name t).localTrait? name' =
      x.template.bind fun template =>
        template.traits.own?.bind fun table => (table.insert name t).get? name' := by
  rw [localTrait?, withLocal, modifyTemplate]
  rcases x.template with _ | template
  · rfl
  rcases htable : template.traits with table | v <;>
    simp [htable, Slot.modify, Slot.own?]

theorem localTrait?_withLocal_of_ne (x : Definition) (t : DefinitionId) {name name' : String}
    (h : name' ≠ name) : (x.withLocal name t).localTrait? name' = x.localTrait? name' := by
  rw [localTrait?_withLocal]
  simp only [Table.get?_insert_of_ne _ _ h]
  rfl

theorem eq_of_localTrait?_withLocal {x : Definition} {name : String} {t u : DefinitionId}
    (h : (x.withLocal name t).localTrait? name = some u) : u = t := by
  rw [localTrait?_withLocal] at h
  obtain ⟨template, _, h⟩ := Option.bind_eq_some_iff.mp h
  obtain ⟨table, _, h⟩ := Option.bind_eq_some_iff.mp h
  rw [Table.get?_insert_self] at h
  exact (Option.some.inj h).symm

/-- A trait with nothing in it. -/
def newTrait (name : String) : Definition := { name := name }

/-- A factory with nothing in it but the traits that it applies. -/
def newFactory (name : String) (applied : List String) (parent model : Value) :
    Definition :=
  { name := name, appliedTraits := .own applied,
    template := some { parent := parent, model := model } }

end Definition

/-- **What the compilations in a registry read.** -/
structure Catalogue where
  definitions : Definitions
  factories : Table DefinitionId
  traits : Table DefinitionId

namespace Catalogue

/-- The trait that a table holds under a name: the global table, or the one of a factory. -/
def at? (c : Catalogue) : Option DefinitionId → String → Option DefinitionId
  | none, name => c.traits.get? name
  | some g, name => (c.definitions.get? g).bind (·.localTrait? name)

/-- A definition is made. -/
def make (c : Catalogue) (x : Definition) : Catalogue :=
  { c with definitions := c.definitions.push x }

/-- A factory is registered under a name. -/
def enrol (c : Catalogue) (name : String) (f : DefinitionId) : Catalogue :=
  { c with factories := c.factories.insert name f }

/-- A trait is put in a table under a name. -/
def place (c : Catalogue) : Option DefinitionId → String → DefinitionId → Catalogue
  | none, name, t => { c with traits := c.traits.insert name t }
  | some g, name, t =>
    { c with definitions := c.definitions.modify g (·.withLocal name t) }

/-- Factories and global traits are forgotten, but not the definitions that they are. -/
def forget (c : Catalogue) : Catalogue := { c with factories := ∅, traits := ∅ }

/-- **One definition has been altered**: it keeps its name and what it has as a factory. -/
structure Altered (d : DefinitionId) (c c' : Catalogue) : Prop where
  self : ∀ x, c.definitions.get? d = some x → ∃ x', c'.definitions.get? d = some x' ∧
    x'.name = x.name ∧ x'.template = x.template
  others : ∀ e, e ≠ d → c'.definitions.get? e = c.definitions.get? e
  size : c'.definitions.size = c.definitions.size
  factories : c'.factories = c.factories
  traits : c'.traits = c.traits

end Catalogue

/-- **A store that holds on to its definitions**: they keep their names, and factories keep their
parents. -/
def Definitions.HoldsTo (ds ds' : Definitions) : Prop :=
  ∀ d x, ds.get? d = some x → ∃ x', ds'.get? d = some x' ∧ x'.name = x.name ∧
    x'.template.map (·.parent) = x.template.map (·.parent)

namespace Definitions.HoldsTo

variable {ds ds' : Definitions} {d : DefinitionId}

theorem of_growsTo (h : ds.GrowsTo ds') : ds.HoldsTo ds' :=
  fun d x hd => ⟨x, h.2 d x hd, rfl, rfl⟩

theorem template? (h : ds.HoldsTo ds') {t : Template} (ht : ds.template? d = some t) :
    ∃ t', ds'.template? d = some t' ∧ t'.parent = t.parent := by
  obtain ⟨x, hd, htemplate⟩ := get?_of_template? ht
  obtain ⟨x', hd', _, hparent⟩ := h d x hd
  rw [htemplate, Option.map_some, Option.map_eq_some_iff] at hparent
  obtain ⟨t', ht', hparent⟩ := hparent
  exact ⟨t', Option.bind_eq_some_iff.mpr ⟨x', hd', ht'⟩, hparent⟩

/-- A definition that was there is a factory only if it was one before. -/
theorem template?_before (h : ds.HoldsTo ds') {x : Definition} (hd : ds.get? d = some x)
    {t' : Template} (ht' : ds'.template? d = some t') :
    ∃ t, ds.template? d = some t ∧ t'.parent = t.parent := by
  obtain ⟨x', hd', _, hparent⟩ := h d x hd
  rw [Definitions.template?, hd', Option.bind_some] at ht'
  rw [ht', Option.map_some, eq_comm, Option.map_eq_some_iff] at hparent
  obtain ⟨t, ht, hparent⟩ := hparent
  exact ⟨t, Option.bind_eq_some_iff.mpr ⟨x, hd, ht⟩, hparent.symm⟩

theorem nameOf (h : ds.HoldsTo ds') {x : Definition} (hd : ds.get? d = some x) :
    ds'.nameOf d = ds.nameOf d := by
  obtain ⟨x', hd', hname, _⟩ := h d x hd
  rw [Definitions.nameOf, Definitions.nameOf, hd, hd']
  exact hname

/-- Factories keep their levels. -/
theorem ancestry (h : ds.HoldsTo ds') {levels : List DefinitionId} (ha : Ancestry ds d levels) :
    Ancestry ds' d levels :=
  ha.of_parents fun _ _ _ ht => h.template? ht

end Definitions.HoldsTo

namespace Catalogue

variable {c c' : Catalogue} {d f g t : DefinitionId} {x : Definition} {name : String}
  {site : Option DefinitionId}

theorem Altered.holdsTo (h : Altered d c c') : c.definitions.HoldsTo c'.definitions := by
  intro e x hx
  by_cases he : e = d
  · subst he
    obtain ⟨x', hx', hname, htemplate⟩ := h.self x hx
    exact ⟨x', hx', hname, by rw [htemplate]⟩
  · exact ⟨x, (h.others e he).trans hx, rfl, rfl⟩

/-- An altered definition has the table of traits that it had. -/
theorem Altered.at? (h : Altered d c c') (site : Option DefinitionId) (name : String) :
    c'.at? site name = c.at? site name := by
  cases site with
  | none => rw [Catalogue.at?, Catalogue.at?, h.traits]
  | some g =>
    by_cases hg : g = d
    · subst hg
      rcases hx : c.definitions.get? g with _ | x
      · -- A store of the same size has nothing at a place where there was nothing.
        have hx' : c'.definitions.get? g = none := by
          rw [Definitions.get?, Array.getElem?_eq_none_iff] at hx ⊢
          have hsize := h.size
          unfold Definitions.size at hsize
          omega
        rw [Catalogue.at?, Catalogue.at?, hx, hx']
      · obtain ⟨x', hx', _, htemplate⟩ := h.self x hx
        simp only [Catalogue.at?, hx, hx', Option.bind_some, Definition.localTrait?, htemplate]
    · simp only [Catalogue.at?, h.others g hg]

theorem holdsTo_make (c : Catalogue) (x : Definition) :
    c.definitions.HoldsTo (c.make x).definitions :=
  .of_growsTo (Definitions.growsTo_push _ _)

/-- What is made stands in no table, and has no table with anything in it. -/
theorem at?_make (hx : ∀ name, x.localTrait? name = none) (site : Option DefinitionId)
    (name : String) : (c.make x).at? site name = c.at? site name := by
  cases site with
  | none => rfl
  | some g =>
    show ((c.definitions.push x).get? g).bind _ = _
    rw [Definitions.get?_push]
    split
    · subst g
      simp only [Catalogue.at?, Definitions.get?_next, Option.bind_some, hx, Option.bind_none]
    · rfl

theorem get?_place_some (c : Catalogue) (g : DefinitionId) (name : String) (t e : DefinitionId) :
    (c.place (some g) name t).definitions.get? e =
      if g = e then (c.definitions.get? e).map (·.withLocal name t) else c.definitions.get? e :=
  c.definitions.get?_modify g _ e

theorem holdsTo_place (c : Catalogue) (site : Option DefinitionId) (name : String)
    (t : DefinitionId) : c.definitions.HoldsTo (c.place site name t).definitions := by
  cases site with
  | none => exact .of_growsTo (.refl _)
  | some g =>
    intro e x hx
    rw [get?_place_some, hx]
    split
    · exact ⟨_, rfl, rfl, x.parent_withLocal name t⟩
    · exact ⟨x, rfl, rfl, rfl⟩

theorem size_place (c : Catalogue) (site : Option DefinitionId) (name : String)
    (t : DefinitionId) : (c.place site name t).definitions.size = c.definitions.size := by
  cases site with
  | none => rfl
  | some g => exact Definitions.size_modify _ _ _

/-- A trait that is put in a table changes nothing elsewhere. -/
theorem at?_place_of_ne {site' : Option DefinitionId} {name' : String}
    (h : site' = site → name' ≠ name) :
    (c.place site name t).at? site' name' = c.at? site' name' := by
  cases site with
  | none =>
    cases site' with
    | none => exact Table.get?_insert_of_ne _ _ (h rfl)
    | some g => rfl
  | some g =>
    cases site' with
    | none => rfl
    | some g' =>
      rw [at?, at?, get?_place_some]
      split
      · -- It is the same table, so the name is another one.
        subst g'
        rcases c.definitions.get? g with _ | x
        · rfl
        · exact x.localTrait?_withLocal_of_ne t (h rfl)
      · rfl

/-- What a table holds after a trait has been put in one is that trait, or was there before. -/
theorem of_at?_place {site' : Option DefinitionId} {name' : String} {u : DefinitionId}
    (h : (c.place site name t).at? site' name' = some u) :
    site' = site ∧ u = t ∨ c.at? site' name' = some u := by
  by_cases hsame : site' = site → name' ≠ name
  · exact .inr (at?_place_of_ne hsame ▸ h)
  obtain ⟨rfl, rfl⟩ : site' = site ∧ name' = name := by simpa using hsame
  refine .inl ⟨rfl, ?_⟩
  cases site' with
  | none => exact Option.some.inj (h.symm.trans (Table.get?_insert_self _ _ _))
  | some g =>
    rw [at?, get?_place_some, if_pos rfl] at h
    obtain ⟨y, hy, h⟩ := Option.bind_eq_some_iff.mp h
    obtain ⟨x, _, rfl⟩ := Option.map_eq_some_iff.mp hy
    exact Definition.eq_of_localTrait?_withLocal h

/-! ## 2. Founded catalogues -/

/-- **A founded catalogue**: every factory has an ancestry, factories are registered under their
own names, and whatever a table of traits names is there. -/
structure Founded (c : Catalogue) : Prop where
  ancestry : ∀ d t, c.definitions.template? d = some t →
    ∃ levels, Ancestry c.definitions d levels
  factories : ∀ name f, c.factories.get? name = some f → ∃ x t,
    c.definitions.get? f = some x ∧ x.name = name ∧ x.template = some t
  stored : ∀ site name t, c.at? site name = some t → ∃ x, c.definitions.get? t = some x

/-- A registered factory has its levels. -/
theorem Founded.levels (h : c.Founded) (hf : c.factories.get? name = some f) :
    ∃ levels, Ancestry c.definitions f levels := by
  obtain ⟨x, t, hx, _, ht⟩ := h.factories name f hf
  exact h.ancestry f t (Option.bind_eq_some_iff.mpr ⟨x, hx, ht⟩)

theorem visible?_eq (c : Catalogue) (scope : DefinitionId) (name : String) :
    c.definitions.visible? c.traits scope name =
      ((c.definitions.levels scope).findSome? fun level => c.at? (some level) name).or
        (c.at? none name) := rfl

/-- What is visible from a factory stands in the table of one of its levels, or in the global
one. -/
theorem exists_place (h : c.definitions.visible? c.traits g name = some t) :
    ∃ site, (∀ level, site = some level → level ∈ c.definitions.levels g) ∧
      c.at? site name = some t := by
  rw [visible?_eq, Option.or_eq_some_iff] at h
  obtain hlocal | ⟨_, hglobal⟩ := h
  · obtain ⟨level, hlevel, hat⟩ := List.exists_of_findSome?_eq_some hlocal
    exact ⟨some level, fun _ h => Option.some.inj h ▸ hlevel, hat⟩
  · exact ⟨none, fun level h => (by cases h), hglobal⟩

theorem Founded.stocked (h : c.Founded) : c.definitions.Stocked c.traits := by
  intro scope name t hv
  obtain ⟨site, _, hat⟩ := exists_place hv
  exact h.stored site name t hat

theorem Founded.altered (h : c.Founded) (ha : Altered d c c') : c'.Founded where
  ancestry e t ht := by
    -- There is nothing new, so the factory was one before.
    have hx : ∃ x, c.definitions.get? e = some x := by
      obtain ⟨x', hx', _⟩ := Definitions.get?_of_template? ht
      have hlt := Definitions.index_lt_of_get? hx'
      rw [ha.size] at hlt
      exact ⟨_, Array.getElem?_eq_getElem hlt⟩
    obtain ⟨x, hx⟩ := hx
    obtain ⟨t, ht, _⟩ := ha.holdsTo.template?_before hx ht
    obtain ⟨levels, hlevels⟩ := h.ancestry e t ht
    exact ⟨levels, ha.holdsTo.ancestry hlevels⟩
  factories name f hf := by
    rw [ha.factories] at hf
    obtain ⟨x, t, hx, hname, ht⟩ := h.factories name f hf
    obtain ⟨x', hx', hname', hparent⟩ := ha.holdsTo f x hx
    rw [ht, Option.map_some, Option.map_eq_some_iff] at hparent
    obtain ⟨t', ht', _⟩ := hparent
    exact ⟨x', t', hx', hname'.trans hname, ht'⟩
  stored site name t hat := by
    rw [ha.at?] at hat
    obtain ⟨x, hx⟩ := h.stored site name t hat
    obtain ⟨x', hx', _⟩ := ha.holdsTo t x hx
    exact ⟨x', hx'⟩

/-- **A definition that may be made**: one that has no parent or one that is there, and no traits of
its own yet. -/
structure Makes (c : Catalogue) (x : Definition) : Prop where
  parent : ∀ t, x.template = some t → t.parent = .null ∨
    ∃ p t', t.parent = .definition p ∧ c.definitions.template? p = some t'
  locals : ∀ name, x.localTrait? name = none

theorem Founded.make (h : c.Founded) (hx : c.Makes x) : (c.make x).Founded where
  ancestry d t ht := by
    have hold := holdsTo_make c x
    obtain ⟨y, hy, hty⟩ := Definitions.get?_of_template? ht
    have hget : (c.make x).definitions.get? d =
      if d = c.definitions.next then some x else c.definitions.get? d := Definitions.get?_push _ _ _
    rw [hget] at hy
    split at hy
    · -- The new definition is a factory with no parent, or one below a parent's levels.
      cases hy
      obtain hnull | ⟨p, t', hp, ht'⟩ := hx.parent t hty
      · exact ⟨_, .oldest ht hnull⟩
      · obtain ⟨levels, hlevels⟩ := h.ancestry p t' ht'
        exact ⟨_, .child ht hp (hold.ancestry hlevels)⟩
    · obtain ⟨levels, hlevels⟩ := h.ancestry d t (Option.bind_eq_some_iff.mpr ⟨y, hy, hty⟩)
      exact ⟨levels, hold.ancestry hlevels⟩
  factories name f hf := by
    obtain ⟨y, t, hy, hname, ht⟩ := h.factories name f hf
    exact ⟨y, t, (Definitions.growsTo_push _ _).2 f y hy, hname, ht⟩
  stored site name t hat := by
    rw [at?_make hx.locals] at hat
    obtain ⟨y, hy⟩ := h.stored site name t hat
    exact ⟨y, (Definitions.growsTo_push _ _).2 t y hy⟩

theorem Founded.enrol (h : c.Founded) {template : Template} (hx : c.definitions.get? f = some x)
    (ht : x.template = some template) : (c.enrol x.name f).Founded where
  ancestry := h.ancestry
  factories name f' hf' := by
    have hf' : (c.factories.insert x.name f).get? name = some f' := hf'
    by_cases hname : name = x.name
    · subst hname
      rw [Table.get?_insert_self] at hf'
      obtain rfl := Option.some.inj hf'
      exact ⟨x, template, hx, rfl, ht⟩
    · rw [Table.get?_insert_of_ne _ _ hname] at hf'
      exact h.factories name f' hf'
  stored site name t hat := h.stored site name t (by cases site <;> exact hat)

theorem Founded.place (h : c.Founded) (hx : c.definitions.get? t = some x) :
    (c.place site name t).Founded where
  ancestry d template ht := by
    have hold := holdsTo_place c site name t
    have hd : ∃ x, c.definitions.get? d = some x := by
      obtain ⟨_, hy, _⟩ := Definitions.get?_of_template? ht
      have hlt := Definitions.index_lt_of_get? hy
      rw [size_place] at hlt
      exact ⟨_, Array.getElem?_eq_getElem hlt⟩
    obtain ⟨y, hy⟩ := hd
    obtain ⟨template, ht, _⟩ := hold.template?_before hy ht
    obtain ⟨levels, hlevels⟩ := h.ancestry d template ht
    exact ⟨levels, hold.ancestry hlevels⟩
  factories name' f hf := by
    have hf : c.factories.get? name' = some f := by cases site <;> exact hf
    obtain ⟨y, template, hy, hname, ht⟩ := h.factories name' f hf
    obtain ⟨y', hy', hname', hparent⟩ := holdsTo_place c site name t f y hy
    rw [ht, Option.map_some, Option.map_eq_some_iff] at hparent
    obtain ⟨template', ht', _⟩ := hparent
    exact ⟨y', template', hy', hname'.trans hname, ht'⟩
  stored site' name' u hat := by
    have hstored : ∃ y, c.definitions.get? u = some y := by
      obtain ⟨_, rfl⟩ | hat := of_at?_place hat
      · exact ⟨x, hx⟩
      · exact h.stored site' name' u hat
    obtain ⟨y, hy⟩ := hstored
    obtain ⟨y', hy', _⟩ := holdsTo_place c site name t u y hy
    exact ⟨y', hy'⟩

theorem Founded.forget (h : c.Founded) : c.forget.Founded where
  ancestry := h.ancestry
  factories name f hf := nomatch (Table.get?_empty name).symm.trans hf
  stored site name t hat := by
    cases site with
    | none => exact nomatch (Table.get?_empty name).symm.trans hat
    | some g => exact h.stored (some g) name t hat

/-! ## 3. Orderly catalogues -/

/-- **An orderly catalogue**: tables of traits name traits, each trait stands in one of them, and
the parents of registered factories are registered. -/
structure Orderly (c : Catalogue) : Prop extends Founded c where
  areTraits : ∀ site name t, c.at? site name = some t → c.definitions.template? t = none
  once : ∀ site site' name name' t, c.at? site name = some t → c.at? site' name' = some t →
    site = site'
  parents : ∀ name f t p, c.factories.get? name = some f → c.definitions.template? f = some t →
    t.parent = .definition p → c.factories.get? (c.definitions.nameOf p) = some p

/-- A registered factory is there. -/
theorem Founded.get?_factory (h : c.Founded) (hf : c.factories.get? name = some f) :
    ∃ x, c.definitions.get? f = some x := by
  obtain ⟨x, _, hx, _⟩ := h.factories name f hf
  exact ⟨x, hx⟩

/-- A store that holds on to its definitions makes no factories of traits. -/
theorem Orderly.isTrait (h : c.Orderly) (hold : c.definitions.HoldsTo c'.definitions)
    (hat : c.at? site name = some t) : c'.definitions.template? t = none := by
  obtain ⟨x, hx⟩ := h.stored site name t hat
  rcases ht : c'.definitions.template? t with _ | template
  · rfl
  · obtain ⟨_, hbefore, _⟩ := hold.template?_before hx ht
    rw [h.areTraits site name t hat] at hbefore
    cases hbefore

/-- Nor does it lose the parents of the factories that stay registered. -/
theorem Orderly.parents_of_holdsTo (h : c.Orderly) (hold : c.definitions.HoldsTo c'.definitions)
    (hf : c.factories.get? name = some f) {template : Template} {p : DefinitionId}
    (ht : c'.definitions.template? f = some template) (hp : template.parent = .definition p) :
    c.factories.get? (c'.definitions.nameOf p) = some p := by
  obtain ⟨x, hx⟩ := h.get?_factory hf
  obtain ⟨template', ht', hparent⟩ := hold.template?_before hx ht
  have hregistered := h.parents name f template' p hf ht' (hparent.symm.trans hp)
  obtain ⟨y, hy⟩ := h.get?_factory hregistered
  rwa [hold.nameOf hy]

theorem Orderly.altered (h : c.Orderly) (ha : Altered d c c') : c'.Orderly where
  toFounded := h.toFounded.altered ha
  areTraits site name t hat := h.isTrait ha.holdsTo ((ha.at? site name).symm.trans hat)
  once site site' name name' t hat hat' :=
    h.once site site' name name' t ((ha.at? site name).symm.trans hat)
      ((ha.at? site' name').symm.trans hat')
  parents name f template p hf ht hp := by
    rw [ha.factories] at hf ⊢
    exact h.parents_of_holdsTo ha.holdsTo hf ht hp

theorem Orderly.make (h : c.Orderly) (hx : c.Makes x) : (c.make x).Orderly where
  toFounded := h.toFounded.make hx
  areTraits site name _ hat :=
    h.isTrait (holdsTo_make c x) ((at?_make hx.locals site name).symm.trans hat)
  once site site' name name' t hat hat' :=
    h.once site site' name name' t ((at?_make hx.locals site name).symm.trans hat)
      ((at?_make hx.locals site' name').symm.trans hat')
  parents _ _ _ _ hf ht hp := h.parents_of_holdsTo (holdsTo_make c x) hf ht hp

/-- A factory may be registered under its name when the name is free and its parent, if it has one,
is registered. -/
theorem Orderly.enrol (h : c.Orderly) (hx : c.definitions.get? f = some x) {template : Template}
    (ht : x.template = some template) (hfree : c.factories.get? x.name = none)
    (hparent : ∀ p, template.parent = .definition p →
      c.factories.get? (c.definitions.nameOf p) = some p) : (c.enrol x.name f).Orderly where
  toFounded := h.toFounded.enrol hx ht
  areTraits site name t hat := h.areTraits site name t (by cases site <;> exact hat)
  once site site' name name' t hat hat' :=
    h.once site site' name name' t (by cases site <;> exact hat)
      (by cases site' <;> exact hat')
  parents name f' t p hf' ht' hp := by
    -- What was registered before still is, since the name was free.
    have hkept : ∀ {p}, c.factories.get? (c.definitions.nameOf p) = some p →
        (c.factories.insert x.name f).get? (c.definitions.nameOf p) = some p := by
      intro p hp
      have hne : c.definitions.nameOf p ≠ x.name := by
        intro heq
        rw [heq, hfree] at hp
        cases hp
      rwa [Table.get?_insert_of_ne _ _ hne]
    refine hkept ?_
    have hf' : (c.factories.insert x.name f).get? name = some f' := hf'
    by_cases hname : name = x.name
    · subst hname
      rw [Table.get?_insert_self] at hf'
      obtain rfl := Option.some.inj hf'
      have ht'' : c.definitions.template? f = some template :=
        Option.bind_eq_some_iff.mpr ⟨x, hx, ht⟩
      obtain rfl := Option.some.inj (ht'.symm.trans ht'')
      exact hparent p hp
    · rw [Table.get?_insert_of_ne _ _ hname] at hf'
      exact h.parents name f' t p hf' ht' hp

/-- A trait that stands in no table yet may be put in one. -/
theorem Orderly.place (h : c.Orderly) (hx : c.definitions.get? t = some x)
    (htrait : x.template = none) (hfresh : ∀ site name, c.at? site name ≠ some t) :
    (c.place site name t).Orderly where
  toFounded := h.toFounded.place hx
  areTraits site' name' u hat := by
    obtain ⟨_, rfl⟩ | hat := of_at?_place hat
    · rcases hu : (c.place site name u).definitions.template? u with _ | template
      · rfl
      · obtain ⟨_, hbefore, _⟩ := (holdsTo_place c site name u).template?_before hx hu
        simp [Definitions.template?, hx, htrait] at hbefore
    · exact h.isTrait (holdsTo_place c site name t) hat
  once site₁ site₂ name₁ name₂ u hat₁ hat₂ := by
    obtain ⟨hsite₁, hu₁⟩ | hbefore₁ := of_at?_place hat₁ <;>
      obtain ⟨hsite₂, hu₂⟩ | hbefore₂ := of_at?_place hat₂
    · exact hsite₁.trans hsite₂.symm
    · exact absurd (hu₁ ▸ hbefore₂) (hfresh _ _)
    · exact absurd (hu₂ ▸ hbefore₁) (hfresh _ _)
    · exact h.once site₁ site₂ name₁ name₂ u hbefore₁ hbefore₂
  parents name' f template p hf ht hp := by
    have hfactories : (c.place site name t).factories = c.factories := by cases site <;> rfl
    rw [hfactories] at hf ⊢
    exact h.parents_of_holdsTo (holdsTo_place c site name t) hf ht hp

theorem Orderly.forget (h : c.Orderly) : c.forget.Orderly where
  toFounded := h.toFounded.forget
  areTraits site name t hat := by
    cases site with
    | none => exact nomatch (Table.get?_empty name).symm.trans hat
    | some g => exact h.areTraits (some g) name t hat
  once site site' name name' t hat hat' := by
    cases site with
    | none => exact nomatch (Table.get?_empty name).symm.trans hat
    | some g =>
      cases site' with
      | none => exact nomatch (Table.get?_empty name').symm.trans hat'
      | some g' => exact h.once (some g) (some g') name name' t hat hat'
  parents name _ _ _ hf := nomatch (Table.get?_empty name).symm.trans hf

/-! ## 4. Deeds -/

theorem makes_newTrait (c : Catalogue) (name : String) : c.Makes (.newTrait name) :=
  ⟨fun _ h => (by cases h), fun _ => rfl⟩

theorem makes_newFactory {c : Catalogue} {parent : Value}
    (h : parent = .null ∨ ∃ p t, parent = .definition p ∧ c.definitions.template? p = some t)
    (name : String) (applied : List String) (model : Value) :
    c.Makes (.newFactory name applied parent model) :=
  ⟨fun t ht => by cases ht; exact h, fun _ => rfl⟩

/-- What is made stands at the end of the store. -/
theorem get?_make_next (c : Catalogue) (x : Definition) :
    (c.make x).definitions.get? c.definitions.next = some x :=
  c.definitions.get?_push_next x

/-- **What a declaration does to a catalogue.** A proper one registers factories under registered
parents only, and puts in a table only traits that stand in none. -/
inductive Deed (proper : Prop) (c : Catalogue) : Catalogue → Prop
  | altered {d : DefinitionId} {c' : Catalogue} (h : Altered d c c') : Deed proper c c'
  | made {x : Definition} (hx : c.Makes x) : Deed proper c (c.make x)
  | defined {name : String} {applied : List String} {parent model : Value}
      (hparent : parent = .null ∨ ∃ p t, parent = .definition p ∧
        c.definitions.template? p = some t ∧
        (proper → c.factories.get? (c.definitions.nameOf p) = some p))
      (hfree : c.factories.get? name = none) :
      Deed proper c
        ((c.make (.newFactory name applied parent model)).enrol name c.definitions.next)
  | placed {site : Option DefinitionId} {name : String} :
      Deed proper c ((c.make (.newTrait name)).place site name c.definitions.next)
  | enrolled {f : DefinitionId} {x : Definition} {t : Template}
      (hx : c.definitions.get? f = some x) (ht : x.template = some t)
      (hfree : c.factories.get? x.name = none)
      (hparent : proper → ∀ p, t.parent = .definition p →
        c.factories.get? (c.definitions.nameOf p) = some p) : Deed proper c (c.enrol x.name f)
  | put {site : Option DefinitionId} {name : String} {t : DefinitionId} {x : Definition}
      (hx : c.definitions.get? t = some x)
      (hfresh : proper → x.template = none ∧ ∀ site name, c.at? site name ≠ some t) :
      Deed proper c (c.place site name t)
  | forgotten : Deed proper c c.forget

/-- **Every declaration leaves a founded catalogue founded.** -/
theorem Founded.deed {proper : Prop} (h : c.Founded) (hd : Deed proper c c') : c'.Founded := by
  cases hd with
  | altered ha => exact h.altered ha
  | made hx => exact h.make hx
  | @defined name applied parent model hparent hfree =>
    have hparent' : parent = .null ∨
        ∃ p t, parent = .definition p ∧ c.definitions.template? p = some t :=
      hparent.imp id fun ⟨p, t, hp, ht, _⟩ => ⟨p, t, hp, ht⟩
    exact (h.make (makes_newFactory hparent' name applied model)).enrol (get?_make_next _ _) rfl
  | placed => exact (h.make (c.makes_newTrait _)).place (get?_make_next _ _)
  | enrolled hx ht => exact h.enrol hx ht
  | put hx => exact h.place hx
  | forgotten => exact h.forget

/-- **Every proper declaration leaves an orderly catalogue orderly.** -/
theorem Orderly.deed {proper : Prop} (hproper : proper) (h : c.Orderly) (hd : Deed proper c c') :
    c'.Orderly := by
  cases hd with
  | altered ha => exact h.altered ha
  | made hx => exact h.make hx
  | @defined name applied parent model hparent hfree =>
    have hparent' : parent = .null ∨
        ∃ p t, parent = .definition p ∧ c.definitions.template? p = some t :=
      hparent.imp id fun ⟨p, t, hp, ht, _⟩ => ⟨p, t, hp, ht⟩
    refine (h.make (makes_newFactory hparent' name applied model)).enrol (get?_make_next _ _) rfl
      hfree fun p hp => ?_
    obtain hnull | ⟨p', t, hp', ht, hregistered⟩ := hparent
    · cases hnull.symm.trans hp
    -- The parent keeps its name while the child is made.
    · obtain rfl : p' = p := by cases hp'.symm.trans hp; rfl
      obtain ⟨x, hx, _⟩ := Definitions.get?_of_template? ht
      rw [(holdsTo_make c _).nameOf hx]
      exact hregistered hproper
  | @placed site name =>
    refine (h.make (c.makes_newTrait name)).place (get?_make_next _ _) rfl fun site' name' hat => ?_
    -- No table names what has only just been made.
    rw [at?_make (c.makes_newTrait name).locals] at hat
    obtain ⟨x, hx⟩ := h.stored site' name' _ hat
    rw [Definitions.get?_next] at hx
    cases hx
  | enrolled hx ht hfree hparent => exact h.enrol hx ht hfree (hparent hproper)
  | put hx hfresh =>
    obtain ⟨htrait, hfresh⟩ := hfresh hproper
    exact h.place hx htrait hfresh
  | forgotten => exact h.forget

end Catalogue

end TraitFactory
