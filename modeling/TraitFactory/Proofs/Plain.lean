import Mathlib.Data.List.Nodup
import Mathlib.Data.List.Perm.Subperm
import TraitFactory.Compile
import TraitFactory.Definition

/-!
# Plain definitions

Definitions that nobody has taken parts out of: each keeps its attributes, its applied traits, its
callbacks and its local traits itself, and its name is a text. All that the compiler reads of such
definitions can be said without the objects of a world: what a definition declares, which traits
it applies, and which trait a name means from a factory.

Before that, the levels of a factory: `Definitions.lineage` goes from parent to parent with a bound on
the number of levels. What it finds is stated here without the bound: a factory that ends in one
without a parent has an *ancestry*, which is unique and never meets a definition twice. So the bound
is never reached, and a store that only grows keeps every ancestry.
-/

namespace TraitFactory

/-- **The levels of a factory**, from itself to the oldest ancestor, which has no parent. -/
inductive Ancestry (ds : Definitions) : DefinitionId → List DefinitionId → Prop where
  | oldest {d : DefinitionId} {t : Template} (ht : ds.template? d = some t)
      (hp : t.parent = .null) : Ancestry ds d [d]
  | child {d p : DefinitionId} {t : Template} {above : List DefinitionId}
      (ht : ds.template? d = some t) (hp : t.parent = .definition p)
      (ha : Ancestry ds p above) : Ancestry ds d (d :: above)

/-- **A store of definitions that has only grown**: whatever was in it is still there. -/
def Definitions.GrowsTo (ds ds' : Definitions) : Prop :=
  ds.size ≤ ds'.size ∧ ∀ d definition, ds.get? d = some definition → ds'.get? d = some definition

namespace Definitions

variable {ds ds' ds'' : Definitions}

theorem GrowsTo.refl (ds : Definitions) : ds.GrowsTo ds := ⟨Nat.le_refl _, fun _ _ h => h⟩

theorem GrowsTo.trans (h : ds.GrowsTo ds') (h' : ds'.GrowsTo ds'') : ds.GrowsTo ds'' :=
  ⟨Nat.le_trans h.1 h'.1, fun d definition hd => h'.2 d definition (h.2 d definition hd)⟩

theorem index_lt_of_get? {d : DefinitionId} {definition : Definition}
    (h : ds.get? d = some definition) : d.index < ds.size := by
  rw [get?, Array.getElem?_eq_some_iff] at h
  exact h.1

/-- A new definition stands at the end of the store. -/
theorem get?_push (ds : Definitions) (definition : Definition) (d : DefinitionId) :
    (ds.push definition).get? d = if d = ds.next then some definition else ds.get? d := by
  show (ds.items.push definition)[d.index]? = _
  rw [Array.getElem?_push]
  cases d
  simp only [next, DefinitionId.mk.injEq]
  rfl

theorem get?_next (ds : Definitions) : ds.get? ds.next = none :=
  Array.getElem?_eq_none (Nat.le_refl _)

theorem get?_push_next (ds : Definitions) (x : Definition) : (ds.push x).get? ds.next = some x := by
  rw [get?_push, if_pos rfl]

theorem get?_modify (ds : Definitions) (d : DefinitionId) (f : Definition → Definition)
    (e : DefinitionId) :
    (ds.modify d f).get? e = if d = e then (ds.get? e).map f else ds.get? e := by
  show (ds.items.modify d.index f)[e.index]? = _
  rw [Array.getElem?_modify]
  cases d
  cases e
  simp only [DefinitionId.mk.injEq]
  rfl

@[simp] theorem size_push (ds : Definitions) (definition : Definition) :
    (ds.push definition).size = ds.size + 1 := by
  simp [size, push]

@[simp] theorem size_modify (ds : Definitions) (d : DefinitionId) (f : Definition → Definition) :
    (ds.modify d f).size = ds.size := by
  simp [size, modify]

theorem growsTo_push (ds : Definitions) (definition : Definition) :
    ds.GrowsTo (ds.push definition) := by
  refine ⟨by simp, fun d old h => ?_⟩
  have hne : d ≠ ds.next := by
    rintro rfl
    rw [get?_next] at h
    cases h
  rw [get?_push, if_neg hne, h]

theorem GrowsTo.template? (h : ds.GrowsTo ds') {d : DefinitionId} {t : Template}
    (ht : ds.template? d = some t) : ds'.template? d = some t := by
  rw [Definitions.template?, Option.bind_eq_some_iff] at ht ⊢
  obtain ⟨definition, hd, ht⟩ := ht
  exact ⟨definition, h.2 d definition hd, ht⟩

theorem get?_of_template? {d : DefinitionId} {t : Template} (ht : ds.template? d = some t) :
    ∃ definition, ds.get? d = some definition ∧ definition.template = some t :=
  Option.bind_eq_some_iff.mp ht

/-- Definitions that are all there, none twice, are no more than there are. -/
theorem length_le_size {levels : List DefinitionId} (hnodup : levels.Nodup)
    (hstored : ∀ l ∈ levels, ∃ definition, ds.get? l = some definition) :
    levels.length ≤ ds.size := by
  -- Definitions are told apart by their places in the store, and the store has that many places.
  have hplaces : (levels.map (·.index)).Nodup :=
    hnodup.map fun a b hab => by cases a; cases b; simp_all
  have hsubset : levels.map (·.index) ⊆ List.range ds.size := by
    intro i hi
    obtain ⟨l, hl, rfl⟩ := List.mem_map.mp hi
    obtain ⟨definition, hd⟩ := hstored l hl
    exact List.mem_range.mpr (index_lt_of_get? hd)
  simpa using (hplaces.subperm hsubset).length_le

end Definitions

namespace Ancestry

variable {ds ds' : Definitions} {d l : DefinitionId} {levels levels' : List DefinitionId}

/-! ## 1. One ancestry, without repetitions -/

theorem unique (h : Ancestry ds d levels) (h' : Ancestry ds d levels') : levels = levels' := by
  induction h generalizing levels' with
  | oldest ht hp =>
    cases h' with
    | oldest => rfl
    | child ht' hp' _ =>
      obtain rfl := Option.some.inj (ht.symm.trans ht')
      cases hp.symm.trans hp'
  | child ht hp _ ih =>
    cases h' with
    | oldest ht' hp' =>
      obtain rfl := Option.some.inj (ht.symm.trans ht')
      cases hp.symm.trans hp'
    | child ht' hp' ha' =>
      obtain rfl := Option.some.inj (ht.symm.trans ht')
      obtain rfl := Value.definition.inj (hp.symm.trans hp')
      rw [ih ha']

theorem head (h : Ancestry ds d levels) : ∃ above, levels = d :: above := by
  cases h with
  | oldest => exact ⟨[], rfl⟩
  | child => exact ⟨_, rfl⟩

theorem mem (h : Ancestry ds d levels) : d ∈ levels := by
  obtain ⟨above, rfl⟩ := h.head
  exact List.mem_cons_self

/-- The levels from any level on are that level's own ancestry. -/
theorem suffix (h : Ancestry ds d levels) {nearer older : List DefinitionId}
    (hl : levels = nearer ++ l :: older) : Ancestry ds l (l :: older) := by
  induction h generalizing nearer with
  | oldest ht hp =>
    cases nearer with
    | nil =>
      obtain ⟨rfl, rfl⟩ : _ = l ∧ [] = older := by simpa using hl
      exact .oldest ht hp
    | cons x xs => simp at hl
  | child ht hp ha ih =>
    cases nearer with
    | nil =>
      obtain ⟨rfl, rfl⟩ : _ = l ∧ _ = older := by simpa using hl
      exact .child ht hp ha
    | cons x xs =>
      simp only [List.cons_append, List.cons.injEq] at hl
      exact ih hl.2

theorem of_mem (h : Ancestry ds d levels) (hl : l ∈ levels) :
    ∃ older, Ancestry ds l (l :: older) ∧ l :: older <:+ levels := by
  obtain ⟨nearer, older, rfl⟩ := List.mem_iff_append.mp hl
  exact ⟨older, h.suffix rfl, nearer, rfl⟩

/-- No factory is among its own ancestors: it would have an ancestry shorter than its own. -/
theorem nodup (h : Ancestry ds d levels) : levels.Nodup := by
  induction h with
  | oldest => exact List.nodup_singleton _
  | child ht hp ha ih =>
    refine List.nodup_cons.mpr ⟨fun hm => ?_, ih⟩
    -- Met again among its ancestors, the factory would have a shorter ancestry there.
    obtain ⟨older, hd, hsuffix⟩ := ha.of_mem hm
    have heq := hd.unique (.child ht hp ha)
    have hlen := hsuffix.length_le
    rw [heq, List.length_cons] at hlen
    omega

theorem template?_isSome (h : Ancestry ds d levels) (hl : l ∈ levels) :
    ∃ t, ds.template? l = some t := by
  obtain ⟨older, hl, _⟩ := h.of_mem hl
  cases hl with
  | oldest ht => exact ⟨_, ht⟩
  | child ht => exact ⟨_, ht⟩

theorem template?_self (h : Ancestry ds d levels) : ∃ t, ds.template? d = some t :=
  h.template?_isSome h.mem

/-- There are no more levels than there are definitions. -/
theorem length_le (h : Ancestry ds d levels) : levels.length ≤ ds.size := by
  refine Definitions.length_le_size h.nodup fun l hl => ?_
  obtain ⟨t, ht⟩ := h.template?_isSome hl
  obtain ⟨definition, hd, _⟩ := Definitions.get?_of_template? ht
  exact ⟨definition, hd⟩

/-- The levels of a factory are a matter of their parents alone. -/
theorem of_parents (h : Ancestry ds d levels)
    (hparents : ∀ l ∈ levels, ∀ t, ds.template? l = some t →
      ∃ t', ds'.template? l = some t' ∧ t'.parent = t.parent) : Ancestry ds' d levels := by
  induction h with
  | oldest ht hp =>
    obtain ⟨t', ht', hparent⟩ := hparents _ List.mem_cons_self _ ht
    exact .oldest ht' (hparent.trans hp)
  | child ht hp _ ih =>
    obtain ⟨t', ht', hparent⟩ := hparents _ List.mem_cons_self _ ht
    exact .child ht' (hparent.trans hp) (ih fun l hl => hparents l (List.mem_cons_of_mem _ hl))

/-- A store that only grows keeps the levels that a factory has. -/
theorem grow (h : Ancestry ds d levels) (hg : ds.GrowsTo ds') : Ancestry ds' d levels :=
  h.of_parents fun _ _ t ht => ⟨t, hg.template? ht, rfl⟩

end Ancestry

/-! ## 2. The bounded search finds the ancestry -/

namespace Definitions

variable {ds : Definitions}

theorem lineageFrom_of_ancestry {d : DefinitionId} {levels : List DefinitionId}
    (h : Ancestry ds d levels) {depth : Nat} (hdepth : levels.length ≤ depth) :
    ds.lineageFrom depth (.definition d) = ⟨levels, true⟩ := by
  induction h generalizing depth with
  | @oldest d t ht hp =>
    obtain ⟨depth, rfl⟩ := Nat.exists_eq_add_one_of_ne_zero (n := depth) (by grind)
    simp only [lineageFrom, ht, hp]
  | @child d p t above ht hp _ ih =>
    obtain ⟨depth, rfl⟩ := Nat.exists_eq_add_one_of_ne_zero (n := depth) (by grind)
    have hdepth : above.length ≤ depth := by simpa using hdepth
    simp only [lineageFrom, ht, hp, ih hdepth]

theorem ancestry_of_closed {depth : Nat} {v : Value} (h : (ds.lineageFrom depth v).closed = true) :
    v = .null ∧ (ds.lineageFrom depth v).levels = [] ∨
      ∃ d, v = .definition d ∧ Ancestry ds d (ds.lineageFrom depth v).levels := by
  fun_induction lineageFrom ds depth v with
  | case1 => exact .inl ⟨rfl, rfl⟩
  | case2 depth d t ht above ih =>
    -- The levels above end properly, so this level has either no parent or a proper one.
    refine .inr ⟨d, rfl, ?_⟩
    obtain ⟨hp, hlevels⟩ | ⟨p, hp, ha⟩ := ih h
    · rw [hlevels]
      exact .oldest ht hp
    · exact .child ht hp ha
  | case3 => simp at h
  | case4 => simp at h

/-- What comes upon a factory with an ancestry has one itself. -/
theorem ancestry_of_mem {depth : Nat} {v : Value} {l : DefinitionId} {older : List DefinitionId}
    (hl : l ∈ (ds.lineageFrom depth v).levels) (ha : Ancestry ds l older) :
    ∃ d levels, v = .definition d ∧ Ancestry ds d levels := by
  -- Going down the search, what lies above a level decides whether it ends properly.
  fun_induction lineageFrom ds depth v with
  | case1 => simp at hl
  | case2 depth d t ht above ih =>
    obtain rfl | hl := List.mem_cons.mp hl
    · exact ⟨l, older, rfl, ha⟩
    · obtain ⟨p, levels, hp, ha⟩ := ih hl
      exact ⟨d, d :: levels, rfl, .child ht hp ha⟩
  | case3 depth d ht =>
    obtain rfl : l = d := by simpa using hl
    exact ⟨l, older, rfl, ha⟩
  | case4 => simp at hl

/-- **A lineage is closed just when the factory has an ancestry**, and then it is the lineage. -/
theorem lineage_eq_iff {d : DefinitionId} {levels : List DefinitionId} :
    ds.lineage d = ⟨levels, true⟩ ↔ Ancestry ds d levels := by
  constructor
  · intro h
    have hclosed : (ds.lineage d).closed = true := by rw [h]
    obtain ⟨hnull, _⟩ | ⟨d', hd, ha⟩ := ancestry_of_closed hclosed
    · cases hnull
    · obtain rfl := Value.definition.inj hd
      have hlevels : (ds.lineage d).levels = levels := by rw [h]
      exact hlevels ▸ ha
  · intro h
    -- The bound leaves room for every definition and for the end.
    have := h.length_le
    exact lineageFrom_of_ancestry h (by omega)

theorem ancestry_lineage {d : DefinitionId} (h : (ds.lineage d).closed = true) :
    Ancestry ds d (ds.lineage d).levels := by
  apply lineage_eq_iff.mp
  rw [← h]

end Definitions

/-! ## 3. What plain definitions hold -/

/-- Every declaration stands once, under its own name. -/
def AttributeSet.Keyed (s : AttributeSet) : Prop :=
  (∀ e ∈ s.table.entries, e.1 = e.2.name) ∧ s.names.Nodup

namespace Definition

/-- **A definition that keeps its parts itself**, as those made and changed through the library's
own declarations do. -/
structure Plain (d : Definition) : Prop where
  given : d.given = none
  attributes : ∃ s, d.attributes = .own s ∧ s.Keyed
  appliedTraits : ∃ names, d.appliedTraits = .own names
  callbacks : ∃ cs, d.callbacks = .own cs
  traits : ∀ t, d.template = some t → ∃ table, t.traits = .own table

/-- What is declared is named by a text. -/
theorem Plain.nameValue_eq {d : Definition} (h : d.Plain) : d.nameValue = .text d.name := by
  rw [nameValue, h.given]
  rfl

/-- The attributes that a definition declares itself. -/
def ownAttributes (d : Definition) : AttributeSet := d.attributes.own?.getD ∅

/-- A definition's own declaration of a name. -/
def declared? (d : Definition) (name : String) : Option Declaration := d.ownAttributes.get? name

/-- The names of the traits that a definition applies, in declared order. -/
def applied (d : Definition) : List String := d.appliedTraits.own?.getD []

/-- The trait that a definition declares under a name for itself and its descendants. -/
def localTrait? (d : Definition) (name : String) : Option DefinitionId :=
  d.template.bind fun t => t.traits.own?.bind (·.get? name)

/-- Whether a definition's constructor and persistor can be called, as far as it has them. -/
def hooksCallable (d : Definition) : Bool :=
  d.constructor.all (·.isCallable) && d.persistor.all (·.isCallable)

/-- **The layer that a definition contributes**: all that it declares itself. -/
def layer (d : Definition) (kind : LayerKind) (scope : Option String) : Layer where
  kind := kind
  name := d.name
  scope := scope
  attributes := d.ownAttributes.declarations
  constructor := d.constructor
  persistor := d.persistor
  callbacks := groupCallbacks (d.callbacks.own?.getD [])

end Definition

namespace Definitions

def Plain (ds : Definitions) : Prop :=
  ∀ d definition, ds.get? d = some definition → definition.Plain

/-- **The trait that a name means from a factory**: the local tables of its levels are searched,
nearest first, and the global table last. -/
def visible? (ds : Definitions) (global : Table DefinitionId) (scope : DefinitionId)
    (name : String) : Option DefinitionId :=
  ((ds.levels scope).findSome? fun level =>
    (ds.get? level).bind (·.localTrait? name)).or (global.get? name)

theorem levels_of_ancestry {ds : Definitions} {d : DefinitionId} {levels : List DefinitionId}
    (h : Ancestry ds d levels) : ds.levels d = levels := by
  rw [Definitions.levels, lineage_eq_iff.mpr h]

/-- **The definitions that a compilation reads**: the levels of its factory, and the traits that
are visible from them. -/
def Reads (ds : Definitions) (global : Table DefinitionId) (levels : List DefinitionId)
    (d : DefinitionId) : Prop :=
  d ∈ levels ∨ ∃ level ∈ levels, ∃ name, ds.visible? global level name = some d

/-- **A store in which all that a compilation reads has stayed**, and which has not become smaller. -/
structure KeepsRead (ds ds' : Definitions) (global : Table DefinitionId)
    (levels : List DefinitionId) : Prop where
  size : ds.size ≤ ds'.size
  same : ∀ d definition, ds.Reads global levels d → ds.get? d = some definition →
    ds'.get? d = some definition

section Reading

variable {ds ds' : Definitions} {global : Table DefinitionId} {scope : DefinitionId}
  {levels older : List DefinitionId}

theorem GrowsTo.keepsRead (h : ds.GrowsTo ds') : ds.KeepsRead ds' global levels :=
  ⟨h.1, fun d definition _ hd => h.2 d definition hd⟩

/-- Some of the levels read no more than all of them. -/
theorem KeepsRead.of_subset (h : ds.KeepsRead ds' global levels) (hsub : older ⊆ levels) :
    ds.KeepsRead ds' global older :=
  ⟨h.size, fun d definition hread => h.same d definition <| hread.imp (fun hd => hsub hd)
    fun ⟨level, hl, hv⟩ => ⟨level, hsub hl, hv⟩⟩

theorem KeepsRead.template? (h : ds.KeepsRead ds' global levels) {level : DefinitionId}
    (hl : level ∈ levels) {t : Template} (ht : ds.template? level = some t) :
    ds'.template? level = some t := by
  obtain ⟨definition, hd, htemplate⟩ := get?_of_template? ht
  rw [Definitions.template?, h.same level definition (.inl hl) hd, Option.bind_some, htemplate]

theorem KeepsRead.ancestry (h : ds.KeepsRead ds' global levels) (ha : Ancestry ds scope levels) :
    Ancestry ds' scope levels :=
  ha.of_parents fun _ hl t ht => ⟨t, h.template? hl ht, rfl⟩

theorem KeepsRead.nameOf (h : ds.KeepsRead ds' global levels) (ha : Ancestry ds scope levels) :
    ds'.nameOf scope = ds.nameOf scope := by
  obtain ⟨_, ht⟩ := ha.template?_self
  obtain ⟨definition, hd, _⟩ := get?_of_template? ht
  rw [Definitions.nameOf, Definitions.nameOf, hd, h.same scope definition (.inl ha.mem) hd]

/-- What is visible from a factory stays so while all that it reads stays. -/
theorem KeepsRead.visible? (h : ds.KeepsRead ds' global levels) (ha : Ancestry ds scope levels)
    (name : String) : ds'.visible? global scope name = ds.visible? global scope name := by
  -- Only definitions that are there are asked, and those stay the same.
  have hlevel : ∀ level ∈ levels, ds'.get? level = ds.get? level := by
    intro level hl
    obtain ⟨t, ht⟩ := ha.template?_isSome hl
    obtain ⟨definition, hd, _⟩ := get?_of_template? ht
    rw [hd, h.same level definition (.inl hl) hd]
  unfold Definitions.visible?
  rw [levels_of_ancestry ha, levels_of_ancestry (h.ancestry ha), ← List.head?_filterMap,
    ← List.head?_filterMap, List.filterMap_congr fun level hl => by rw [hlevel level hl]]

end Reading

end Definitions

/-! ## 4. Reading plain definitions in a world -/

namespace World

variable {w : World} {d : Definition}

theorem writtenName_plain (h : d.Plain) : w.writtenName d = .ok d.name := by
  rw [writtenName, h.nameValue_eq]
  rfl

theorem references_plain (h : d.Plain) :
    w.references d.appliedTraits = .ok (d.applied.map .text) := by
  obtain ⟨names, hnames⟩ := h.appliedTraits
  simp only [Definition.applied, hnames]
  rfl

/-- The layer of a plain definition is made just when its hooks can be called. -/
theorem layerOf_plain (h : d.Plain) (kind : LayerKind) (scope : Option String) :
    w.layerOf d kind scope =
      if d.hooksCallable then .ok (d.layer kind scope)
      else .error (Failure.raise .invalidDeclaration) := by
  obtain ⟨s, hs, _⟩ := h.attributes
  obtain ⟨cs, hcs⟩ := h.callbacks
  have hname := writtenName_plain (w := w) h
  simp only [layerOf, hs, hcs, declarationsOf, callbacksOf, hname, Definition.hooksCallable,
    Definition.layer, Definition.ownAttributes, Slot.own?_own, Option.getD_some]
  rfl

theorem scopeName_plain (hw : w.definitions.Plain) {scope : DefinitionId} {t : Template}
    (ht : w.definitions.template? scope = some t) :
    w.scopeName scope = .ok (some (w.definitions.nameOf scope)) := by
  obtain ⟨definition, hd, _⟩ := Definitions.get?_of_template? ht
  have hplain := hw scope definition hd
  simp only [scopeName, hd, hplain.given, writtenName_plain hplain, Definitions.nameOf]
  rfl

/-! ## 5. Looking traits up -/

theorem findLocal?_plain (hw : w.definitions.Plain) {levels : List DefinitionId}
    (h : ∀ level ∈ levels, ∃ t, w.definitions.template? level = some t) (name : String) :
    w.findLocal? name levels =
      .ok ((levels.findSome? fun level =>
        (w.definitions.get? level).bind (·.localTrait? name)).map .definition) := by
  induction levels with
  | nil => rfl
  | cons level older ih =>
    obtain ⟨t, ht⟩ := h level (by simp)
    obtain ⟨definition, hd, htemplate⟩ := Definitions.get?_of_template? ht
    obtain ⟨table, htable⟩ := (hw level definition hd).traits t htemplate
    have ih := ih fun l hl => h l (by simp [hl])
    -- The nearest table that has the name decides; otherwise the older levels do.
    have hlocal : definition.localTrait? name = table.get? name := by
      simp [Definition.localTrait?, htemplate, htable]
    simp only [findLocal?, ht, htable, definedUnder?, List.findSome?_cons, hd, Option.bind_some,
      hlocal]
    cases table.get? name with
    | none => exact ih
    | some found => rfl

variable {scope : DefinitionId} {levels : List DefinitionId}

theorem findTrait?_plain (hw : w.definitions.Plain) (h : Ancestry w.definitions scope levels)
    (global : Table DefinitionId) (name : String) :
    w.findTrait? (.own global) (some scope) name =
      .ok ((w.definitions.visible? global scope name).map .definition) := by
  have hlineage := Definitions.lineage_eq_iff.mpr h
  have hlocal := findLocal?_plain hw (fun level hl => h.template?_isSome hl) name
  simp only [findTrait?, hlineage, hlocal, Definitions.visible?, Definitions.levels_of_ancestry h]
  cases levels.findSome? fun level => (w.definitions.get? level).bind (·.localTrait? name) <;> rfl

/-- A reference means the trait that is visible under its name, or else is missing. -/
theorem traitAt_plain (hw : w.definitions.Plain) (h : Ancestry w.definitions scope levels)
    (global : Table DefinitionId) (trail : List DefinitionId) (name : String) :
    w.traitAt (.own global) scope trail (.text name) =
      match w.definitions.visible? global scope name with
      | some t => .ok t
      | none => .error (w.definitions.missingTrait scope trail true name) := by
  simp only [traitAt, Value.name?_text, findTrait?_plain hw h]
  cases w.definitions.visible? global scope name <;> rfl

theorem traitAt_eq_ok_iff (hw : w.definitions.Plain) (h : Ancestry w.definitions scope levels)
    {global : Table DefinitionId} {trail : List DefinitionId} {name : String} {t : DefinitionId} :
    w.traitAt (.own global) scope trail (.text name) = .ok t ↔
      w.definitions.visible? global scope name = some t := by
  rw [traitAt_plain hw h]
  cases w.definitions.visible? global scope name <;> simp

end World

end TraitFactory
