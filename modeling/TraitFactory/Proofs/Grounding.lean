import Mathlib.Data.Set.Card
import TraitFactory.Proofs.Expansion
import TraitFactory.Proofs.Origins

/-!
# Compilation ends

Parents are older than their children, whatever is declared, so no factory comes to be its own
ancestor, and every walk from parent to parent ends. An expansion is bounded by what can be seen
from its scope: it goes by names, which are looked up anew each time, but it never stands inside
one trait twice, and all that it stands inside is visible. So its bound, which leaves room for all
definitions, is never felt, and a compilation ends in a plan or in a failure of what it compiles.
-/

namespace TraitFactory

/-! ## 1. Parents and tables -/

/-- **Definitions whose parents are older** than they are, and whose local tables hold definitions
that are there. -/
structure Definitions.Grounded (ds : Definitions) : Prop where
  parents : ∀ d t, ds.template? d = some t →
    t.parent = .null ∨ ∃ p, t.parent = .definition p ∧ p.index < d.index
  locals : ∀ d x name t, ds.get? d = some x → x.localTrait? name = some t →
    ∃ y, ds.get? t = some y

/-- **A world of such definitions**, in which the global tables, too, hold what is there. -/
structure World.Grounded (w : World) : Prop where
  definitions : w.definitions.Grounded
  globals : ∀ r reg name t, w.registryAt? r = some reg → reg.globals.get? name = some t →
    ∃ y, w.definitions.get? t = some y

/-- What an entry of a table is after another was put in. -/
theorem Table.get?_insert_eq_some {α : Type} {table : Table α} {key name : String} {x y : α}
    (h : (table.insert key x).get? name = some y) : y = x ∨ table.get? name = some y := by
  by_cases hname : name = key
  · subst hname
    rw [Table.get?_insert_self] at h
    exact .inl (Option.some.inj h).symm
  · rw [Table.get?_insert_of_ne _ _ hname] at h
    exact .inr h

namespace Definitions.Grounded

variable {ds : Definitions}

/-- A definition may be added whose parent is there and whose table is empty. -/
theorem push (h : ds.Grounded) {x : Definition} (hparent : ∀ t, x.template = some t →
      t.parent = .null ∨ ∃ p y, t.parent = .definition p ∧ ds.get? p = some y)
    (hlocals : ∀ name, x.localTrait? name = none) : (ds.push x).Grounded where
  parents d t ht := by
    obtain ⟨y, hy, htemplate⟩ := get?_of_template? ht
    rw [get?_push] at hy
    split at hy
    · -- What is there stands before what comes next.
      subst d
      obtain rfl := Option.some.inj hy
      obtain hnull | ⟨p, z, hp, hz⟩ := hparent t htemplate
      · exact .inl hnull
      · exact .inr ⟨p, hp, index_lt_of_get? hz⟩
    · exact h.parents d t (Option.bind_eq_some_iff.mpr ⟨y, hy, htemplate⟩)
  locals d y name t hy hlocal := by
    rw [get?_push] at hy
    split at hy
    · obtain rfl := Option.some.inj hy
      rw [hlocals] at hlocal
      cases hlocal
    · obtain ⟨z, hz⟩ := h.locals d y name t hy hlocal
      exact ⟨z, (growsTo_push ds x).2 t z hz⟩

/-- A definition may be changed as long as its parent stays and its table gets only what is
there. -/
theorem modify (h : ds.Grounded) (d : DefinitionId) {f : Definition → Definition}
    (hparent : ∀ x t', (f x).template = some t' → ∃ t, x.template = some t ∧ t'.parent = t.parent)
    (hlocals : ∀ x name t, ds.get? d = some x → (f x).localTrait? name = some t →
      x.localTrait? name = some t ∨ ∃ y, ds.get? t = some y) : (ds.modify d f).Grounded := by
  have hthere : ∀ {t y}, ds.get? t = some y → ∃ y', (ds.modify d f).get? t = some y' := by
    intro t y hy
    rw [get?_modify, hy]
    split
    · exact ⟨f y, rfl⟩
    · exact ⟨y, rfl⟩
  refine ⟨fun e t' ht' => ?_, fun e x' name t hx' hlocal => ?_⟩
  · obtain ⟨x', hx', htemplate⟩ := get?_of_template? ht'
    rw [get?_modify] at hx'
    split at hx'
    · obtain ⟨x, hx, rfl⟩ := Option.map_eq_some_iff.mp hx'
      obtain ⟨t, ht, hsame⟩ := hparent x t' htemplate
      rw [hsame]
      exact h.parents e t (Option.bind_eq_some_iff.mpr ⟨x, hx, ht⟩)
    · exact h.parents e t' (Option.bind_eq_some_iff.mpr ⟨x', hx', htemplate⟩)
  · rw [get?_modify] at hx'
    split at hx'
    · subst e
      obtain ⟨x, hx, rfl⟩ := Option.map_eq_some_iff.mp hx'
      obtain hold | ⟨y, hy⟩ := hlocals x name t hx hlocal
      · obtain ⟨y, hy⟩ := h.locals d x name t hx hold
        exact hthere hy
      · exact hthere hy
    · obtain ⟨y, hy⟩ := h.locals e x' name t hx' hlocal
      exact hthere hy

end Definitions.Grounded

namespace World

variable {w₀ w w' : World}

/-- What a definition's own change leaves of the rest of a world. -/
theorem Grounded.modifyDefinition (h : w.Grounded) (hw : w'.registries = w.registries)
    {d : DefinitionId} {f : Definition → Definition}
    (hdefinitions : w'.definitions = w.definitions.modify d f)
    (hparent : ∀ x t', (f x).template = some t' → ∃ t, x.template = some t ∧ t'.parent = t.parent)
    (hlocals : ∀ x name t, w.definitions.get? d = some x → (f x).localTrait? name = some t →
      x.localTrait? name = some t ∨ ∃ y, w.definitions.get? t = some y) : w'.Grounded := by
  refine ⟨hdefinitions ▸ h.definitions.modify d hparent hlocals, fun r reg name t hreg ht => ?_⟩
  rw [registryAt?, hw] at hreg
  obtain ⟨y, hy⟩ := h.globals r reg name t hreg ht
  rw [hdefinitions, Definitions.get?_modify, hy]
  split
  · exact ⟨f y, rfl⟩
  · exact ⟨y, rfl⟩

theorem Grounded.making (h : w.Grounded) {x : Definition} (hparent : ∀ t, x.template = some t →
      t.parent = .null ∨ ∃ p y, t.parent = .definition p ∧ w.definitions.get? p = some y)
    (hlocals : ∀ name, x.localTrait? name = none) : (w.making x).Grounded := by
  refine ⟨h.definitions.push hparent hlocals, fun r reg name t hreg ht => ?_⟩
  obtain ⟨y, hy⟩ := h.globals r reg name t hreg ht
  exact ⟨y, (Definitions.growsTo_push _ _).2 t y hy⟩

/-- A registry may be changed as long as its table gets only what is there. -/
theorem Grounded.modifyRegistry (h : w.Grounded) {r : RegistryId} {f : Registry → Registry}
    (hf : ∀ reg name t, w.registryAt? r = some reg → (f reg).globals.get? name = some t →
      reg.globals.get? name = some t ∨ ∃ y, w.definitions.get? t = some y) :
    (w.modifyRegistry r f).Grounded := by
  refine ⟨h.definitions, fun q reg' name t hreg' ht => ?_⟩
  rw [registryAt?_modify] at hreg'
  split at hreg'
  · subst q
    obtain ⟨reg, hreg, rfl⟩ := Option.map_eq_some_iff.mp hreg'
    obtain hold | hthere := hf reg name t hreg ht
    · exact h.globals r reg name t hreg hold
    · exact hthere
  · exact h.globals q reg' name t hreg' ht

/-- **Every edit of a grounded world leaves it grounded.** -/
theorem Grounded.edit (h : w.Grounded) (he : w.Edit w') : w'.Grounded := by
  -- A change of a definition that leaves its template alone.
  have hkept : ∀ {w₁ : World} {d : DefinitionId} {f : Definition → Definition},
      w₁.registries = w.registries → w₁.definitions = w.definitions.modify d f →
      (∀ x, (f x).template = x.template) → w₁.Grounded := by
    intro w₁ d f hregistries hdefinitions hf
    refine h.modifyDefinition hregistries hdefinitions (fun x t' ht' => ⟨t', hf x ▸ ht', rfl⟩)
      fun x name t _ ht => .inl ?_
    rwa [Definition.localTrait?, hf] at ht
  cases he with
  | retained hr =>
    refine ⟨hr.definitions ▸ h.definitions, fun r reg' name t hreg' ht => ?_⟩
    have hfollows := hr.follows r reg' hreg'
    rw [Registry.globals, hfollows.traits] at ht
    rcases hreg : w.registryAt? r with _ | reg <;> rw [hreg] at ht
    · cases ht
    · rw [hr.definitions]
      exact h.globals r reg name t hreg ht
  | trait name => exact h.making (fun t ht => by cases ht) fun _ => rfl
  | factory name applied model hparent =>
    refine h.making (fun t ht => ?_) fun _ => rfl
    cases ht
    exact hparent
  | declared => exact hkept rfl rfl fun _ => rfl
  | applied => exact hkept rfl rfl fun _ => rfl
  | hooked => exact hkept rfl rfl fun _ => rfl
  | called => exact hkept rfl rfl fun _ => rfl
  | @locally f d x y t table hf ht htable hd name =>
    refine h.modifyDefinition rfl rfl (fun x t' ht' => ?_) fun x' name' t' hx' hlocal => ?_
    · obtain ⟨t, ht, rfl⟩ := Option.map_eq_some_iff.mp ht'
      exact ⟨t, ht, rfl⟩
    · -- In the table stands what stood there, or the trait that is put in.
      obtain rfl := Option.some.inj (hf.symm.trans hx')
      simp only [Definition.localTrait?, Definition.modifyTemplate, ht, htable, Option.map_some,
        Option.bind_some, Slot.own?_own] at hlocal ⊢
      obtain rfl | hold := Table.get?_insert_eq_some hlocal
      · exact .inr ⟨y, hd⟩
      · exact .inl hold
  | @globally r reg d y hreg hd name =>
    refine h.modifyRegistry fun reg' name' t hreg' ht => ?_
    obtain rfl := Option.some.inj (hreg.symm.trans hreg')
    obtain rfl | hold := Table.get?_insert_eq_some ht
    · exact .inr ⟨y, hd⟩
    · exact .inl hold
  | enrolled => exact h.modifyRegistry fun _ _ _ _ ht => .inl ht
  | noFactories => exact h.modifyRegistry fun _ _ _ _ ht => .inl ht
  | noTraits => exact h.modifyRegistry fun _ _ _ _ ht => by cases ht

theorem Blank.grounded (h : w.Blank) : w.Grounded := by
  have hnone : ∀ d, w.definitions.get? d = none := fun d => by
    rw [h.definitions, get?_empty_definitions]
  refine ⟨⟨fun d t ht => ?_, fun d x name t hx => ?_⟩, fun r reg name t hreg ht => ?_⟩
  · obtain ⟨x, hx, -⟩ := Definitions.get?_of_template? ht
    rw [hnone] at hx
    cases hx
  · rw [hnone] at hx
    cases hx
  · rw [h.registries r reg hreg] at ht
    cases ht

/-- **Wherever steps lead**, parents are older than their children, and tables hold what is
there. -/
theorem Grounded.advanced (hw : w₀.Ordinary) (h : w₀.Grounded) (hrun : w₀.Advanced w) :
    w.Grounded := by
  refine hrun.induction hw h (fun w w' _ he h => h.edit he) fun w r factory traits hw h hthere => ?_
  obtain ⟨reg, hreg⟩ := hthere
  have hdefinitions := (Action.besides_compile (hw.neat hreg) factory traits).definitions
  refine ⟨hdefinitions ▸ h.definitions, fun q reg' name t hreg' ht => ?_⟩
  obtain ⟨reg₀, c, hreg₀, rfl⟩ := Action.registryAt?_compile hw hreg factory traits hreg'
  rw [hdefinitions]
  exact h.globals q reg₀ name t hreg₀ ht

end World

/-! ## 2. From parent to parent -/

namespace Definitions

variable {ds : Definitions}

/-- One definition is the parent of another. -/
def ParentOf (ds : Definitions) (p d : DefinitionId) : Prop :=
  ∃ t, ds.template? d = some t ∧ t.parent = .definition p

theorem lineageFrom_null (ds : Definitions) (depth : Nat) :
    ds.lineageFrom depth .null = ⟨[], true⟩ := by
  cases depth <;> rfl

namespace Grounded

theorem index_lt_of_parentOf (h : ds.Grounded) {p d : DefinitionId} (hp : ds.ParentOf p d) :
    p.index < d.index := by
  obtain ⟨t, ht, hparent⟩ := hp
  obtain hnull | ⟨q, hq, hlt⟩ := h.parents d t ht
  · cases hparent.symm.trans hnull
  · obtain rfl := Value.definition.inj (hparent.symm.trans hq)
    exact hlt

/-- **No definition is its own ancestor**: all its ancestors are older. -/
theorem not_own_ancestor (h : ds.Grounded) (d : DefinitionId) :
    ¬ Relation.TransGen ds.ParentOf d d := by
  have holder : ∀ {a b}, Relation.TransGen ds.ParentOf a b → a.index < b.index := by
    intro a b hab
    induction hab with
    | single hp => exact h.index_lt_of_parentOf hp
    | tail _ hp ih => exact Nat.lt_trans ih (h.index_lt_of_parentOf hp)
  exact fun hd => Nat.lt_irrefl _ (holder hd)

/-- A walk from parent to parent comes to an end before a bound that leaves room for all that is
older. -/
theorem lineageFrom_eq (h : ds.Grounded) {depth depth' : Nat} {d : DefinitionId}
    (hdepth : d.index < depth) (hdepth' : d.index < depth') :
    ds.lineageFrom depth (.definition d) = ds.lineageFrom depth' (.definition d) := by
  induction depth generalizing depth' d with
  | zero => omega
  | succ depth ih =>
    obtain ⟨depth', rfl⟩ := Nat.exists_eq_add_one_of_ne_zero (n := depth') (by omega)
    rw [lineageFrom, lineageFrom]
    rcases ht : ds.template? d with _ | t
    · rfl
    · dsimp only
      obtain hnull | ⟨p, hp, hlt⟩ := h.parents d t ht
      · rw [hnull, lineageFrom_null, lineageFrom_null]
      · rw [hp, ih (show p.index < depth by omega) (show p.index < depth' by omega)]

/-- The levels of a walk are ever older. -/
theorem sorted_lineageFrom (h : ds.Grounded) (depth : Nat) (d : DefinitionId) :
    (ds.lineageFrom depth (.definition d)).levels.Pairwise (fun a b => b.index < a.index) ∧
      ∀ l ∈ (ds.lineageFrom depth (.definition d)).levels, l.index ≤ d.index := by
  induction depth generalizing d with
  | zero => exact ⟨.nil, fun _ hl => by cases hl⟩
  | succ depth ih =>
    rw [lineageFrom]
    rcases ht : ds.template? d with _ | t
    · refine ⟨List.pairwise_singleton _ _, fun l hl => ?_⟩
      rw [List.mem_singleton.mp hl]
    · dsimp only
      obtain hnull | ⟨p, hp, hlt⟩ := h.parents d t ht
      · rw [hnull, lineageFrom_null]
        refine ⟨List.pairwise_singleton _ _, fun l hl => ?_⟩
        rw [List.mem_singleton.mp hl]
      · rw [hp]
        obtain ⟨hsorted, hle⟩ := ih p
        refine ⟨List.pairwise_cons.mpr ⟨fun l hl => ?_, hsorted⟩, fun l hl => ?_⟩
        · have := hle l hl
          omega
        · obtain rfl | hl := List.mem_cons.mp hl
          · exact Nat.le_refl _
          · have := hle l hl
            omega

/-- **Every walk ends**: with any larger bound it is the same. -/
theorem lineageFrom_eq_lineage (h : ds.Grounded) {depth : Nat} (hdepth : ds.size < depth)
    (d : DefinitionId) : ds.lineageFrom depth (.definition d) = ds.lineage d := by
  rcases hd : ds.get? d with _ | x
  · -- From what is not there no walk goes on.
    obtain ⟨depth, rfl⟩ := Nat.exists_eq_add_one_of_ne_zero (n := depth) (by omega)
    have hnone : ds.template? d = none := by rw [template?, hd]; rfl
    rw [lineage, lineageFrom, lineageFrom, hnone]
  · have hlt := index_lt_of_get? hd
    exact h.lineageFrom_eq (by omega) (by omega)

theorem nodup_levels (h : ds.Grounded) (d : DefinitionId) : (ds.levels d).Nodup :=
  (h.sorted_lineageFrom _ d).1.imp fun hlt heq => by
    rw [heq] at hlt
    exact Nat.lt_irrefl _ hlt

/-- There are no more levels than definitions. -/
theorem length_levels_le (h : ds.Grounded) {d : DefinitionId} {x : Definition}
    (hd : ds.get? d = some x) : (ds.levels d).length ≤ ds.size := by
  have hindices : (ds.levels d).map (·.index) ⊆ List.range ds.size := by
    intro i hi
    obtain ⟨l, hl, rfl⟩ := List.mem_map.mp hi
    have hle := (h.sorted_lineageFrom _ d).2 l hl
    have hlt := index_lt_of_get? hd
    exact List.mem_range.mpr (by omega)
  have hnodup : ((ds.levels d).map (·.index)).Nodup :=
    (h.nodup_levels d).map fun a b hab => by cases a; cases b; simp_all
  simpa using (hnodup.subperm hindices).length_le

end Grounded

end Definitions

/-! ## 3. What is visible -/

namespace World

variable {w : World} {global : Table DefinitionId} {scope t : DefinitionId}
  {trail : List DefinitionId}

/-- **The traits that are visible from a scope**: those that a lookup finds under some name. -/
def visibleFrom (w : World) (global : Table DefinitionId) (scope : DefinitionId) :
    Set DefinitionId :=
  {t | ∃ name, w.findTrait? (.own global) (some scope) name = .ok (some (.definition t))}

/-- How many traits are visible from a scope. -/
noncomputable def visibleCount (w : World) (global : Table DefinitionId) (scope : DefinitionId) :
    Nat := (w.visibleFrom global scope).ncard

/-- What is found in a local table is there. -/
theorem get?_of_findLocal? (hw : w.definitions.Plain) (h : w.definitions.Grounded) {name : String}
    {levels : List DefinitionId} {v : Value} (hv : w.findLocal? name levels = .ok (some v)) :
    ∃ t y, v = .definition t ∧ w.definitions.get? t = some y := by
  induction levels with
  | nil => cases hv
  | cons level older ih =>
    rw [findLocal?] at hv
    rcases ht : w.definitions.template? level with _ | t <;> rw [ht] at hv
    · cases hv
    obtain ⟨x, hx, htemplate⟩ := Definitions.get?_of_template? ht
    obtain ⟨table, htable⟩ := (hw level x hx).traits t htemplate
    simp only [htable, definedUnder?, bind, Except.bind] at hv
    rcases hfound : table.get? name with _ | d <;> rw [hfound] at hv
    · exact ih hv
    · cases hv
      have hlocal : x.localTrait? name = some d := by
        simp [Definition.localTrait?, htemplate, htable, hfound]
      obtain ⟨y, hy⟩ := h.locals level x name d hx hlocal
      exact ⟨d, y, rfl, hy⟩

/-- A failed lookup tells of a level that is no factory. -/
theorem findLocal?_error (hw : w.definitions.Plain) {name : String} {levels : List DefinitionId}
    {e : Failure} (he : w.findLocal? name levels = .error e) :
    e = Failure.raise (.noAttribute none) := by
  induction levels with
  | nil => cases he
  | cons level older ih =>
    rw [findLocal?] at he
    rcases ht : w.definitions.template? level with _ | t <;> rw [ht] at he
    · cases he
      rfl
    obtain ⟨x, hx, htemplate⟩ := Definitions.get?_of_template? ht
    obtain ⟨table, htable⟩ := (hw level x hx).traits t htemplate
    simp only [htable, definedUnder?, bind, Except.bind] at he
    rcases hfound : table.get? name with _ | d <;> rw [hfound] at he
    · exact ih he
    · cases he

/-- **A lookup** finds a definition that is there, or finds nothing, or comes upon a level that is
no factory. -/
theorem findTrait?_cases (hw : w.definitions.Plain) (h : w.definitions.Grounded)
    (hglobal : ∀ name t, global.get? name = some t → ∃ y, w.definitions.get? t = some y)
    (scope : DefinitionId) (name : String) :
    (∃ t y, w.findTrait? (.own global) (some scope) name = .ok (some (.definition t)) ∧
      w.definitions.get? t = some y) ∨
    w.findTrait? (.own global) (some scope) name = .ok none ∨
    w.findTrait? (.own global) (some scope) name = .error (Failure.raise (.noAttribute none)) := by
  simp only [findTrait?, bind, Except.bind]
  rcases hlocal : w.findLocal? name (w.definitions.lineage scope).levels with e | _ | v
  · exact .inr (.inr (by rw [findLocal?_error hw hlocal]))
  · dsimp only
    split
    · rcases hfound : global.get? name with _ | t
      · exact .inr (.inl (by rw [definedUnder?, hfound]; rfl))
      · obtain ⟨y, hy⟩ := hglobal name t hfound
        exact .inl ⟨t, y, by rw [definedUnder?, hfound]; rfl, hy⟩
    · exact .inr (.inr rfl)
  · obtain ⟨t, y, rfl, hy⟩ := get?_of_findLocal? hw h hlocal
    exact .inl ⟨t, y, rfl, hy⟩

section Visible

variable (hw : w.definitions.Plain) (h : w.definitions.Grounded)
  (hglobal : ∀ name t, global.get? name = some t → ∃ y, w.definitions.get? t = some y)
include hw h hglobal

theorem get?_of_visible (ht : t ∈ w.visibleFrom global scope) :
    ∃ y, w.definitions.get? t = some y := by
  obtain ⟨name, hfound⟩ := ht
  obtain ⟨t', y, hfound', hy⟩ | hnone | herror := findTrait?_cases hw h hglobal scope name
  · rw [hfound] at hfound'
    cases hfound'
    exact ⟨y, hy⟩
  · rw [hfound] at hnone
    cases hnone
  · rw [hfound] at herror
    cases herror

/-- No more is visible than there is. -/
theorem visible_subset : w.visibleFrom global scope ⊆
    ((List.range w.definitions.size).map DefinitionId.mk).toFinset := by
  intro t ht
  obtain ⟨y, hy⟩ := get?_of_visible hw h hglobal ht
  simp only [List.coe_toFinset, Set.mem_ofPred_eq, List.mem_map, List.mem_range]
  exact ⟨t.index, Definitions.index_lt_of_get? hy, rfl⟩

theorem finite_visibleFrom : (w.visibleFrom global scope).Finite :=
  (Finset.finite_toSet _).subset (visible_subset hw h hglobal)

theorem visibleCount_le : w.visibleCount global scope ≤ w.definitions.size := by
  have hle : (w.visibleFrom global scope).ncard ≤ _ :=
    Set.ncard_le_ncard (visible_subset hw h hglobal) (Finset.finite_toSet _)
  rw [Set.ncard_coe_finset] at hle
  refine Nat.le_trans hle (Nat.le_trans (List.toFinset_card_le _) ?_)
  simp

/-- Visible traits, none twice, are no more than are visible. -/
theorem length_le_visibleCount (hnodup : trail.Nodup)
    (htrail : ∀ t ∈ trail, t ∈ w.visibleFrom global scope) :
    trail.length ≤ w.visibleCount global scope := by
  rw [← List.toFinset_card_of_nodup hnodup, ← Set.ncard_coe_finset]
  exact Set.ncard_le_ncard (fun t ht => htrail t (by simpa using ht))
    (finite_visibleFrom hw h hglobal)

end Visible

end World

/-! ## 4. The depth of an expansion -/

/-- **A failure of what is compiled**, and not of a bound on how deep that goes. -/
def Failure.Shallow (e : Failure) : Prop := e.cause ≠ .tooDeep

theorem Definitions.shallow_missingTrait (ds : Definitions) (scope : DefinitionId)
    (trail : List DefinitionId) (isName : Bool) (name : String) :
    (ds.missingTrait scope trail isName name).Shallow := by
  have hnotFound : ∀ factory trait, (Failure.traitNotFound name factory trait).Shallow := by
    intro factory trait
    unfold Failure.traitNotFound Failure.Shallow
    dsimp only
    split <;> simp [Failure.raise]
  unfold missingTrait
  split <;> exact hnotFound _ _

theorem Definitions.shallow_cycle (ds : Definitions) (scope : DefinitionId)
    (trail : List DefinitionId) : (ds.cycle scope trail).Shallow := by
  unfold cycle Failure.Shallow
  split <;> simp [Failure.inFactory, Failure.raise]

/-- What fails of a list fails for one of its elements. -/
theorem exists_of_mapM_error {α β ε : Type} {f : α → Except ε β} {xs : List α} {e : ε}
    (h : xs.mapM f = .error e) : ∃ x, f x = .error e := by
  induction xs with
  | nil => cases h
  | cons x xs ih =>
    rw [List.mapM_cons] at h
    rcases hx : f x with e' | y <;> rw [hx] at h
    · cases h
      exact ⟨x, hx⟩
    · rcases hxs : xs.mapM f with e' | ys <;> rw [hxs] at h
      · cases h
        exact ih hxs
      · cases h

namespace World

variable {w : World} {global : Table DefinitionId} {scope t : DefinitionId} {kind : LayerKind}
  {trail : List DefinitionId} {ref : Value}

/-! ### The three ways of one reference -/

theorem expand_of_error {e : Failure} (h : w.traitAt (.own global) scope trail ref = .error e)
    (depth : Nat) : w.expand (.own global) scope kind depth trail ref = .error e := by
  cases depth with
  | zero => rw [expand_zero, h]; rfl
  | succ depth => rw [expand_succ, h]; rfl

theorem expand_of_mem (h : w.traitAt (.own global) scope trail ref = .ok t) (ht : t ∈ trail)
    (depth : Nat) : w.expand (.own global) scope kind depth trail ref =
      .error (w.definitions.cycle scope (trail ++ [t])) := by
  cases depth with
  | zero => rw [expand_zero, h]; exact if_pos ht
  | succ depth => rw [expand_succ, h]; exact if_pos ht

theorem expand_of_not_mem (hw : w.definitions.Plain)
    (h : w.traitAt (.own global) scope trail ref = .ok t) (ht : t ∉ trail) {x : Definition}
    (hx : w.definitions.get? t = some x) (depth : Nat) :
    w.expand (.own global) scope kind (depth + 1) trail ref = (do
      let nested ← (x.applied.map .text).mapM (w.expand (.own global) scope kind depth (trail ++ [t]))
      let layer ← w.layerOf x kind (← w.scopeName scope)
      return nested.flatten ++ [layer]) := by
  rw [expand_succ, h]
  show (if t ∈ trail then _ else _) = _
  rw [if_neg ht, hx]
  simp only [references_plain (hw t x hx)]
  rfl

theorem exists_scopeName (hw : w.definitions.Plain) (scope : DefinitionId) :
    ∃ named, w.scopeName scope = .ok named := by
  unfold scopeName
  rcases hd : w.definitions.get? scope with _ | x
  · exact ⟨none, rfl⟩
  · have hplain := hw scope x hd
    simp only [hplain.given, writtenName_plain hplain]
    exact ⟨some x.name, rfl⟩

theorem shallow_layerOf {d : Definition} (hd : d.Plain) {named : Option String} {e : Failure}
    (h : w.layerOf d kind named = .error e) : e.Shallow := by
  rw [layerOf_plain hd] at h
  split at h
  · cases h
  · cases h
    simp [Failure.Shallow, Failure.raise]

section Grounded

variable (hw : w.definitions.Plain) (h : w.definitions.Grounded)
  (hglobal : ∀ name t, global.get? name = some t → ∃ y, w.definitions.get? t = some y)
include hw h hglobal

/-- A reference means a trait that is visible, or it fails for what it is. -/
theorem traitAt_cases (scope : DefinitionId) (trail : List DefinitionId) (ref : Value) :
    (∃ t x, w.traitAt (.own global) scope trail ref = .ok t ∧ t ∈ w.visibleFrom global scope ∧
      w.definitions.get? t = some x) ∨
    ∃ e, w.traitAt (.own global) scope trail ref = .error e ∧ e.Shallow := by
  unfold traitAt
  rcases ref.name? with _ | name
  · exact .inr ⟨_, rfl, Definitions.shallow_missingTrait _ _ _ _ _⟩
  simp only [bind, Except.bind]
  obtain ⟨t, y, hfound, hy⟩ | hnone | herror := findTrait?_cases hw h hglobal scope name
  · rw [hfound]
    exact .inl ⟨t, y, rfl, ⟨name, hfound⟩, hy⟩
  · rw [hnone]
    exact .inr ⟨_, rfl, Definitions.shallow_missingTrait _ _ _ _ _⟩
  · rw [herror]
    refine .inr ⟨_, rfl, ?_⟩
    simp [Failure.Shallow, Failure.raise]

/-- **An expansion is bounded by what is visible.** A bound that leaves room for the visible traits
which it does not stand inside yet is as good as any other, and is never felt. -/
theorem expand_bounded {depth depth' : Nat} (hnodup : trail.Nodup)
    (htrail : ∀ t ∈ trail, t ∈ w.visibleFrom global scope)
    (hdepth : w.visibleCount global scope ≤ depth + trail.length)
    (hdepth' : w.visibleCount global scope ≤ depth' + trail.length) :
    w.expand (.own global) scope kind depth trail ref =
      w.expand (.own global) scope kind depth' trail ref ∧
    ∀ e, w.expand (.own global) scope kind depth trail ref = .error e → e.Shallow := by
  -- By induction on the visible traits that it does not stand inside.
  induction hroom : w.visibleCount global scope - trail.length using Nat.strongRecOn
    generalizing depth depth' trail ref with
  | _ room ih =>
    obtain ⟨t, x, ht, hvisible, hx⟩ | ⟨e, he, hshallow⟩ := traitAt_cases hw h hglobal scope trail ref
    · by_cases hmem : t ∈ trail
      · rw [expand_of_mem ht hmem, expand_of_mem ht hmem]
        exact ⟨rfl, fun e he => Except.error.inj he ▸ Definitions.shallow_cycle _ _ _⟩
      -- One more trait is stood inside, so there is room for it on both sides.
      have hnodup' : (trail ++ [t]).Nodup :=
        hnodup.append (List.nodup_singleton t) (by simpa using hmem)
      have htrail' : ∀ u ∈ trail ++ [t], u ∈ w.visibleFrom global scope := by
        intro u hu
        obtain hu | hu := List.mem_append.mp hu
        · exact htrail u hu
        · exact List.mem_singleton.mp hu ▸ hvisible
      have hlength := length_le_visibleCount hw h hglobal hnodup' htrail'
      have hlonger : (trail ++ [t]).length = trail.length + 1 := by simp
      obtain ⟨depth, rfl⟩ := Nat.exists_eq_add_one_of_ne_zero (n := depth) (by omega)
      obtain ⟨depth', rfl⟩ := Nat.exists_eq_add_one_of_ne_zero (n := depth') (by omega)
      have hnested : ∀ ref, w.expand (.own global) scope kind depth (trail ++ [t]) ref =
            w.expand (.own global) scope kind depth' (trail ++ [t]) ref ∧
          ∀ e, w.expand (.own global) scope kind depth (trail ++ [t]) ref = .error e →
            e.Shallow := fun ref =>
        ih (w.visibleCount global scope - (trail ++ [t]).length) (by omega) hnodup' htrail'
          (by omega) (by omega) rfl
      rw [expand_of_not_mem hw ht hmem hx, expand_of_not_mem hw ht hmem hx,
        funext fun ref => (hnested ref).1]
      refine ⟨rfl, fun e he => ?_⟩
      obtain ⟨named, hnamed⟩ := exists_scopeName hw scope
      simp only [hnamed, bind, Except.bind] at he
      rcases hparts : (x.applied.map .text).mapM
        (w.expand (.own global) scope kind depth' (trail ++ [t])) with e' | parts <;>
        rw [hparts] at he
      · obtain rfl := Except.error.inj he
        obtain ⟨ref', href⟩ := exists_of_mapM_error hparts
        exact (hnested ref').2 e' ((hnested ref').1.trans href)
      · dsimp only at he
        rcases hown : w.layerOf x kind named with e' | own <;> rw [hown] at he
        · obtain rfl := Except.error.inj he
          exact shallow_layerOf (hw t x hx) hown
        · cases he
    · rw [expand_of_error he, expand_of_error he]
      exact ⟨rfl, fun e' he' => Except.error.inj he' ▸ hshallow⟩

theorem lays_expandAll (refs : List Value) :
    Lays (fun _ => True) Failure.Shallow (w.expandAll (.own global) scope kind refs) := by
  refine ⟨fun _ _ _ _ => trivial, fun e he => ?_⟩
  unfold expandAll at he
  rcases hparts : refs.mapM (w.expand (.own global) scope kind w.expansionDepth []) with e' | parts <;>
    rw [hparts] at he
  · obtain rfl := Except.error.inj he
    obtain ⟨ref, href⟩ := exists_of_mapM_error hparts
    have hle : w.visibleCount global scope ≤ w.expansionDepth :=
      Nat.le_succ_of_le (visibleCount_le hw h hglobal)
    exact (expand_bounded hw h hglobal .nil (fun _ ht => by cases ht) hle hle).2 e' href
  · cases he

theorem lays_levelLayers (level : DefinitionId) :
    Lays (fun _ => True) Failure.Shallow (w.levelLayers (.own global) level) := by
  refine ⟨fun _ _ _ _ => trivial, fun e he => ?_⟩
  unfold levelLayers at he
  rcases hd : w.definitions.get? level with _ | x <;> rw [hd] at he
  · obtain rfl := Except.error.inj he
    simp [Failure.Shallow, Failure.raise]
  dsimp only at he
  split at he
  · obtain rfl := Except.error.inj he
    simp [Failure.Shallow, Failure.raise]
  simp only [references_plain (hw level x hd), bind, Except.bind] at he
  rcases htraits : w.expandAll (.own global) level .trait (x.applied.map .text) with e' | traits <;>
    rw [htraits] at he
  · obtain rfl := Except.error.inj he
    exact (lays_expandAll hw h hglobal _).failure e' htraits
  · rcases hown : w.layerOf x .factory with e' | own <;> simp only [hown] at he
    · obtain rfl := Except.error.inj he
      exact shallow_layerOf (hw level x hd) hown
    · cases he

end Grounded

end World

/-- **What a factory's compilations come to** is never for want of a deeper bound. -/
theorem World.Grounded.provides {w : World} (hw : w.definitions.Plain)
    (h : w.definitions.Grounded) {global : Table DefinitionId}
    (hglobal : ∀ name t, global.get? name = some t → ∃ y, w.definitions.get? t = some y)
    {f : DefinitionId} {x : Definition} (hf : w.definitions.get? f = some x) :
    w.definitions.Provides (fun _ => True) Failure.Shallow global f where
  foundation := by
    have hlength : ¬ w.definitions.size < (w.definitions.lineage f).levels.length :=
      Nat.not_lt.mpr (h.length_levels_le hf)
    refine ⟨fun _ _ _ _ => trivial, fun e he => ?_⟩
    unfold Definitions.foundation at he
    split at he
    · cases he
    · obtain rfl := Except.error.inj he
      rw [Definitions.lineageFailure, if_neg hlength]
      simp [Failure.Shallow, Failure.raise]
  levels w' hw' level _ :=
    World.lays_levelLayers (hw' ▸ hw) (hw' ▸ h) (hw' ▸ hglobal) level
  calls w' hw' refs := World.lays_expandAll (hw' ▸ hw) (hw' ▸ h) (hw' ▸ hglobal) refs
  lost := by simp [Failure.Shallow, Failure.raise]

/-! ## 5. Compilations -/

namespace World

/-- **A reference that an expansion comes upon**, with the traits that it stands inside, the
outermost first: one of those that the expansion starts with, or one that a trait applies which is
opened on the way. -/
inductive Meets (w : World) (global : Table DefinitionId) (scope : DefinitionId)
    (refs : List Value) : List DefinitionId → Value → Prop
  | given {ref : Value} (h : ref ∈ refs) : Meets w global scope refs [] ref
  | inside {trail : List DefinitionId} {ref inner : Value} {t : DefinitionId} {x : Definition}
      {applied : List Value} (h : Meets w global scope refs trail ref)
      (ht : w.traitAt (.own global) scope trail ref = .ok t) (hnew : t ∉ trail)
      (hx : w.definitions.get? t = some x) (happlied : w.references x.appliedTraits = .ok applied)
      (hinner : inner ∈ applied) : Meets w global scope refs (trail ++ [t]) inner

/-- **Expansions from a scope are bounded** by the traits that are visible from it. What an
expansion stands inside is visible, and none of it twice, so that it goes no deeper than there are
visible traits, and one step more for the last reference. That many steps are all it ever takes,
whatever more it is given, and it never fails for want of more. -/
structure Bounded (w : World) (global : Table DefinitionId) (scope : DefinitionId) : Prop where
  finite : (w.visibleFrom global scope).Finite
  trails : ∀ refs trail ref, w.Meets global scope refs trail ref → trail.Nodup ∧
    (∀ t ∈ trail, t ∈ w.visibleFrom global scope) ∧
    trail.length + 1 ≤ w.visibleCount global scope + 1
  expand : ∀ kind ref depth, w.visibleCount global scope ≤ depth →
    w.expand (.own global) scope kind depth [] ref =
      w.expand (.own global) scope kind (w.visibleCount global scope) [] ref ∧
    ∀ e, w.expand (.own global) scope kind depth [] ref = .error e → e.cause ≠ .tooDeep

/-- **Walks from parent to parent end**: no factory is its own ancestor, the levels of a factory are
different ones, and a bound above the number of definitions makes no difference to them. -/
structure WalksEnd (w : World) : Prop where
  ancestors : ∀ d, ¬ Relation.TransGen w.definitions.ParentOf d d
  levels : ∀ d, (w.definitions.levels d).Nodup
  lineage : ∀ d depth, w.definitions.size < depth →
    w.definitions.lineageFrom depth (.definition d) = w.definitions.lineage d

variable {w : World} {global : Table DefinitionId}

theorem bounded_of_grounded (hw : w.definitions.Plain) (h : w.definitions.Grounded)
    (hglobal : ∀ name t, global.get? name = some t → ∃ y, w.definitions.get? t = some y)
    (scope : DefinitionId) : w.Bounded global scope where
  finite := finite_visibleFrom hw h hglobal
  trails refs trail ref hmeets := by
    have hpath : trail.Nodup ∧ ∀ t ∈ trail, t ∈ w.visibleFrom global scope := by
      induction hmeets with
      | given => exact ⟨.nil, fun _ ht => by cases ht⟩
      | @inside trail ref inner t x applied _ ht hnew _ _ _ ih =>
        obtain ⟨hnodup, hvisible⟩ := ih
        refine ⟨hnodup.append (List.nodup_singleton t) (by simpa using hnew), fun u hu => ?_⟩
        obtain hu | hu := List.mem_append.mp hu
        · exact hvisible u hu
        · obtain rfl := List.mem_singleton.mp hu
          obtain ⟨t', _, ht', hvisible', _⟩ | ⟨e, he, _⟩ :=
            traitAt_cases hw h hglobal scope trail ref
          · obtain rfl := Except.ok.inj (ht.symm.trans ht')
            exact hvisible'
          · cases ht.symm.trans he
    exact ⟨hpath.1, hpath.2, Nat.succ_le_succ (length_le_visibleCount hw h hglobal hpath.1 hpath.2)⟩
  expand kind ref depth hdepth :=
    expand_bounded hw h hglobal .nil (fun _ ht => by cases ht) hdepth (Nat.le_refl _)

theorem walksEnd_of_grounded (h : w.definitions.Grounded) : w.WalksEnd :=
  ⟨h.not_own_ancestor, h.nodup_levels, fun d _ hdepth => h.lineageFrom_eq_lineage hdepth d⟩

end World

namespace Action

/-- **Compilation ends**, wherever declarations and compilations have led, whatever its traits
include. Walks from parent to parent end, expansions are bounded by what is visible from their
scope, and a compilation comes to a plan, or to a failure other than that it went too deep; but for
one that cannot read what it is given, and fails for that. -/
theorem compilation_ends {w₀ w : World} (hblank : w₀.Blank) (hrun : w₀.Advanced w) :
    w.WalksEnd ∧ ∀ r reg, w.registryAt? r = some reg →
      (∀ scope, w.Bounded reg.globals scope) ∧
      ∀ factory traits,
        (∃ e w', (named reg factory traits).execute w = (.error e, w') ∧
          (compile r factory traits).execute w = (.error e, w')) ∨
        ∃ outcome w', (compile r factory traits).execute w = (outcome, w') ∧
          ((∃ p plan, outcome = .ok p ∧ w'.plan? p = some plan) ∨
            ∃ e, outcome = .error e ∧ e.cause ≠ .tooDeep) := by
  have hw := hblank.ordinary.advanced hrun
  have hg := World.Grounded.advanced hblank.ordinary hblank.grounded hrun
  refine ⟨World.walksEnd_of_grounded hg.definitions, fun r reg hreg => ?_⟩
  have hglobal := fun name t => hg.globals r reg name t hreg
  refine ⟨World.bounded_of_grounded hw.definitions hg.definitions hglobal, fun factory traits => ?_⟩
  have hcache := World.traceable_advanced hblank.ordinary hblank.traceable hrun r reg hreg
  have hprovides : ∀ name f, reg.factory? name = some f →
      w.definitions.Provides (fun _ => True) Failure.Shallow reg.globals f := by
    intro name f hf
    obtain ⟨x, hx, -⟩ := hw.names r reg hreg name f hf
    exact World.Grounded.provides hw.definitions hg.definitions hglobal hx
  obtain ⟨e, w', hnamed, hexec, -⟩ | ⟨outcome, c, w', hexec, hlaid⟩ :=
    laid_compile (hw.neat hreg) (hcache.mono (fun _ _ => trivial) fun _ _ hs => hs) hprovides
      factory traits
  · exact .inl ⟨e, w', hnamed, hexec⟩
  · refine .inr ⟨outcome, w', hexec, ?_⟩
    rcases outcome with e | p
    · exact .inr ⟨e, rfl, hlaid.failure e rfl⟩
    · obtain ⟨s, hs, -⟩ := hlaid.plan p rfl
      exact .inl ⟨p, s.plan, rfl, Option.map_eq_some_iff.mpr ⟨s, hs, rfl⟩⟩

theorem advanced_circle : World.fresh.Advanced World.circle := by
  refine World.advanced_after (World.advanced_after (World.advanced_after (World.advanced_after
    (World.advanced_after .refl ?_ ?_) ?_ ?_) ?_ ?_) ?_ ?_) ?_ ?_ <;> first | rfl | trivial

/-- Two traits that apply each other: an expansion goes no deeper than the two, and the compilation
fails for the circle. -/
theorem compilation_ends_circle :
    World.circle.WalksEnd ∧ World.circle.Bounded ⟨[("a", ⟨1⟩), ("b", ⟨2⟩)]⟩ ⟨0⟩ ∧
    ∃ e w', (compile ⟨0⟩ (.text "f") (some (.text "a"))).execute World.circle = (.error e, w') ∧
      e.cause = .traitCycle ["a", "b", "a"] ∧ e.cause ≠ .tooDeep := by
  obtain ⟨reg, hreg⟩ : ∃ reg, World.circle.registryAt? ⟨0⟩ = some reg :=
    Option.isSome_iff_exists.mp (by decide +kernel)
  have hglobals : reg.globals = ⟨[("a", ⟨1⟩), ("b", ⟨2⟩)]⟩ := by
    have hshown : (World.circle.registryAt? ⟨0⟩).map (·.globals) =
      some ⟨[("a", ⟨1⟩), ("b", ⟨2⟩)]⟩ := by decide +kernel
    rw [hreg] at hshown
    exact Option.some.inj hshown
  have hcause : (failureOf ((compile ⟨0⟩ (.text "f") (some (.text "a"))).execute
      World.circle).1).map (·.cause) = some (.traitCycle ["a", "b", "a"]) := by decide +kernel
  obtain ⟨hwalks, hall⟩ := compilation_ends World.blank_fresh advanced_circle
  obtain ⟨hbounded, hends⟩ := hall ⟨0⟩ reg hreg
  refine ⟨hwalks, hglobals ▸ hbounded ⟨0⟩, ?_⟩
  obtain ⟨e, w', -, hexec⟩ | ⟨outcome, w', hexec, houtcome⟩ := hends (.text "f") (some (.text "a")) <;>
    rw [hexec] at hcause
  · have he := Option.some.inj hcause
    exact ⟨e, w', hexec, he, by simp [he]⟩
  · obtain ⟨p, plan, rfl, -⟩ | ⟨e, rfl, hshallow⟩ := houtcome
    · cases hcause
    · exact ⟨e, w', hexec, Option.some.inj hcause, hshallow⟩

end Action

end TraitFactory
