import TraitFactory.Proofs.Outline

/-!
# The references that a compilation visits

A compilation goes over references to traits in one order: the levels of the factory from the
oldest on, each with the traits that it applies, and then the call-time traits, each trait before
the traits that it applies itself. `Visits` lists them all, also those after one at which the
compiler stops, since what it stops at is told by the first of them that cannot be opened.
-/

namespace TraitFactory

/-! ## 1. References -/

/-- **A reference that is visited**: the name, the factory from which it is looked up, and the
traits inside which it stands, the outermost first. -/
structure Reference where
  scope : DefinitionId
  trail : List DefinitionId
  name : String
  deriving DecidableEq

namespace Reference

/-- The trait that is visible under the name. -/
def target? (ds : Definitions) (global : Table DefinitionId) (v : Reference) :
    Option DefinitionId :=
  ds.visible? global v.scope v.name

/-- **A reference is opened** when it resolves to a trait inside which it does not stand. -/
def Opens (ds : Definitions) (global : Table DefinitionId) (v : Reference) : Prop :=
  ∃ t, v.target? ds global = some t ∧ t ∉ v.trail

end Reference

/-- **The traits inside which something is expanded**: all are there, and none twice. -/
structure Trail (ds : Definitions) (trail : List DefinitionId) : Prop where
  nodup : trail.Nodup
  stored : ∀ t ∈ trail, ∃ definition, ds.get? t = some definition

namespace Trail

variable {ds : Definitions} {trail : List DefinitionId}

theorem nil : Trail ds [] := ⟨List.nodup_nil, fun _ h => nomatch h⟩

theorem push (h : Trail ds trail) {t : DefinitionId} {definition : Definition} (ht : t ∉ trail)
    (hd : ds.get? t = some definition) : Trail ds (trail ++ [t]) := by
  refine ⟨List.nodup_append.mpr ⟨h.nodup, List.nodup_singleton t, ?_⟩, fun u hu => ?_⟩
  · rintro u hu _ (_ | ⟨_, ⟨⟩⟩) rfl
    exact ht hu
  · obtain hu | hu := List.mem_append.mp hu
    · exact h.stored u hu
    · exact List.mem_singleton.mp hu ▸ ⟨definition, hd⟩

theorem length_le (h : Trail ds trail) : trail.length ≤ ds.size :=
  Definitions.length_le_size h.nodup h.stored

/-- A bound that leaves room for all definitions is not reached where a trail gets longer. -/
theorem room {t : DefinitionId} {depth : Nat} (h : Trail ds (trail ++ [t]))
    (hdepth : ds.size < depth + trail.length) :
    ∃ depth', depth = depth' + 1 ∧ ds.size < depth' + (trail ++ [t]).length := by
  have hlength : trail.length + 1 ≤ ds.size := by simpa using h.length_le
  obtain ⟨depth', rfl⟩ := Nat.exists_eq_add_one_of_ne_zero (n := depth) (by omega)
  refine ⟨depth', rfl, ?_⟩
  rw [List.length_append, List.length_singleton]
  omega

end Trail

/-- Whatever is visible from a factory is there. -/
def Definitions.Stocked (ds : Definitions) (global : Table DefinitionId) : Prop :=
  ∀ scope name t, ds.visible? global scope name = some t → ∃ definition, ds.get? t = some definition

/-! ## 2. Visits -/

/-- **The visits of some references** that stand inside the traits of a trail and are looked up
from a factory. What cannot be opened is passed over. -/
inductive Visits (ds : Definitions) (global : Table DefinitionId) (scope : DefinitionId) :
    List DefinitionId → List String → List Reference → Prop
  | nil {trail : List DefinitionId} : Visits ds global scope trail [] []
  | missing {trail : List DefinitionId} {name : String} {names : List String}
      {rest : List Reference} (hv : ds.visible? global scope name = none)
      (hrest : Visits ds global scope trail names rest) :
      Visits ds global scope trail (name :: names) (⟨scope, trail, name⟩ :: rest)
  | cyclic {trail : List DefinitionId} {name : String} {names : List String}
      {rest : List Reference} {t : DefinitionId} (hv : ds.visible? global scope name = some t)
      (ht : t ∈ trail) (hrest : Visits ds global scope trail names rest) :
      Visits ds global scope trail (name :: names) (⟨scope, trail, name⟩ :: rest)
  | opened {trail : List DefinitionId} {name : String} {names : List String}
      {inner rest : List Reference} {t : DefinitionId} {definition : Definition}
      (hv : ds.visible? global scope name = some t) (ht : t ∉ trail)
      (hd : ds.get? t = some definition)
      (hinner : Visits ds global scope (trail ++ [t]) definition.applied inner)
      (hrest : Visits ds global scope trail names rest) :
      Visits ds global scope trail (name :: names) (⟨scope, trail, name⟩ :: (inner ++ rest))

namespace Visits

variable {ds : Definitions} {global : Table DefinitionId} {scope : DefinitionId}
  {trail : List DefinitionId} {names : List String} {vs vs' : List Reference}

theorem unique (h : Visits ds global scope trail names vs)
    (h' : Visits ds global scope trail names vs') : vs = vs' := by
  induction h generalizing vs' with
  | nil => cases h'; rfl
  | missing hv hrest ih =>
    cases h' with
    | missing hv' hrest' => rw [ih hrest']
    | cyclic hv' => cases hv.symm.trans hv'
    | opened hv' => cases hv.symm.trans hv'
  | cyclic hv ht hrest ih =>
    cases h' with
    | missing hv' => cases hv.symm.trans hv'
    | cyclic hv' ht' hrest' => rw [ih hrest']
    | opened hv' ht' =>
      obtain rfl := Option.some.inj (hv.symm.trans hv')
      exact absurd ht ht'
  | opened hv ht hd hinner hrest ihinner ihrest =>
    cases h' with
    | missing hv' => cases hv.symm.trans hv'
    | cyclic hv' ht' =>
      obtain rfl := Option.some.inj (hv.symm.trans hv')
      exact absurd ht' ht
    | opened hv' ht' hd' hinner' hrest' =>
      obtain rfl := Option.some.inj (hv.symm.trans hv')
      obtain rfl := Option.some.inj (hd.symm.trans hd')
      rw [ihinner hinner', ihrest hrest']

/-- One reference that is opened. -/
theorem single {name : String} {t : DefinitionId} {definition : Definition} {inner : List Reference}
    (hv : ds.visible? global scope name = some t) (ht : t ∉ trail)
    (hd : ds.get? t = some definition)
    (hinner : Visits ds global scope (trail ++ [t]) definition.applied inner) :
    Visits ds global scope trail [name] (⟨scope, trail, name⟩ :: inner) :=
  List.append_nil inner ▸ .opened hv ht hd hinner .nil

theorem scope_eq (h : Visits ds global scope trail names vs) {v : Reference} (hv : v ∈ vs) :
    v.scope = scope := by
  induction h with
  | nil => cases hv
  | missing _ _ ih | cyclic _ _ _ ih =>
    obtain rfl | hv := List.mem_cons.mp hv
    · rfl
    · exact ih hv
  | opened _ _ _ _ _ ihinner ihrest =>
    obtain rfl | hv := List.mem_cons.mp hv
    · rfl
    · exact (List.mem_append.mp hv).elim ihinner ihrest

/-- What stands around a visited reference is visible from where it is looked up. -/
theorem visible_of_trail (h : Visits ds global scope trail names vs)
    (htrail : ∀ t ∈ trail, ∃ name, ds.visible? global scope name = some t) {v : Reference}
    (hv : v ∈ vs) : ∀ t ∈ v.trail, ∃ name, ds.visible? global scope name = some t := by
  induction h with
  | nil => cases hv
  | missing _ _ ih | cyclic _ _ _ ih =>
    obtain rfl | hv := List.mem_cons.mp hv
    · exact htrail
    · exact ih htrail hv
  | opened hvisible _ _ _ _ ihinner ihrest =>
    obtain rfl | hv := List.mem_cons.mp hv
    · exact htrail
    obtain hv | hv := List.mem_append.mp hv
    · refine ihinner (fun t ht => ?_) hv
      obtain ht | ht := List.mem_append.mp ht
      · exact htrail t ht
      · exact List.mem_singleton.mp ht ▸ ⟨_, hvisible⟩
    · exact ihrest htrail hv

/-- **Every list of references can be gone over**: a trail gets no longer than there are
definitions. -/
theorem exists_of_trail (hstocked : ds.Stocked global) (htrail : Trail ds trail)
    (names : List String) : ∃ vs, Visits ds global scope trail names vs := by
  -- By induction on the definitions that are not on the trail, and then on the references.
  induction hroom : ds.size - trail.length using Nat.strongRecOn
    generalizing trail names with
  | _ room ihroom =>
    induction names with
    | nil => exact ⟨[], .nil⟩
    | cons name names ihnames =>
      obtain ⟨rest, hrest⟩ := ihnames
      rcases hv : ds.visible? global scope name with _ | t
      · exact ⟨_, .missing hv hrest⟩
      by_cases ht : t ∈ trail
      · exact ⟨_, .cyclic hv ht hrest⟩
      obtain ⟨definition, hd⟩ := hstocked scope name t hv
      have hpush := htrail.push ht hd
      have hlength : trail.length + 1 ≤ ds.size := by simpa using hpush.length_le
      obtain ⟨inner, hinner⟩ := ihroom (ds.size - (trail ++ [t]).length)
        (by rw [List.length_append, List.length_singleton]; omega) hpush definition.applied rfl
      exact ⟨_, .opened hv ht hd hinner hrest⟩

end Visits

/-- **A path of inclusion** from some names to one: a first trait is visible under one of them, each
further one under a name that the trait before it applies, and the name in the end is applied by the
last trait. Without any trait it is one of the names itself. -/
def InclusionPath (ds : Definitions) (global : Table DefinitionId) (scope : DefinitionId) :
    List String → List DefinitionId → String → Prop
  | names, [], name => name ∈ names
  | names, t :: trail, name => ∃ n ∈ names, ds.visible? global scope n = some t ∧
      ∃ definition, ds.get? t = some definition ∧
        InclusionPath ds global scope definition.applied trail name

namespace InclusionPath

variable {ds : Definitions} {global : Table DefinitionId} {scope : DefinitionId}
  {names names' : List String} {trail : List DefinitionId} {name : String}

theorem mono (h : InclusionPath ds global scope names trail name) (hsub : names ⊆ names') :
    InclusionPath ds global scope names' trail name := by
  cases trail with
  | nil => exact hsub h
  | cons t trail =>
    obtain ⟨n, hn, hrest⟩ := h
    exact ⟨n, hsub hn, hrest⟩

end InclusionPath

/-- **What stands around a visited reference is the way to it.** -/
theorem Visits.inclusionPath {ds : Definitions} {global : Table DefinitionId}
    {scope : DefinitionId} {trail : List DefinitionId} {names : List String}
    {vs : List Reference} (h : Visits ds global scope trail names vs) {v : Reference}
    (hv : v ∈ vs) : ∃ inner, v.trail = trail ++ inner ∧
      InclusionPath ds global scope names inner v.name := by
  induction h with
  | nil => cases hv
  | missing _ _ ih | cyclic _ _ _ ih =>
    obtain rfl | hv := List.mem_cons.mp hv
    · exact ⟨[], (List.append_nil _).symm, List.mem_cons_self⟩
    · obtain ⟨inner, htrail, hpath⟩ := ih hv
      exact ⟨inner, htrail, hpath.mono (List.subset_cons_self _ _)⟩
  | @opened trail name names _ _ t definition hvisible _ hd _ _ ihinner ihrest =>
    obtain rfl | hv := List.mem_cons.mp hv
    · exact ⟨[], (List.append_nil _).symm, List.mem_cons_self⟩
    obtain hv | hv := List.mem_append.mp hv
    · -- Inside the trait that is opened the way goes on from it.
      obtain ⟨inner, htrail, hpath⟩ := ihinner hv
      refine ⟨t :: inner, ?_, name, List.mem_cons_self, hvisible, definition, hd, hpath⟩
      rw [htrail, List.append_assoc, List.singleton_append]
    · obtain ⟨inner, htrail, hpath⟩ := ihrest hv
      exact ⟨inner, htrail, hpath.mono (List.subset_cons_self _ _)⟩

/-! ## 3. The visits of a compilation -/

/-- The visits of some levels, which are given nearest first: those of the oldest come first. -/
inductive VisitsLevels (ds : Definitions) (global : Table DefinitionId) :
    List DefinitionId → List Reference → Prop
  | nil : VisitsLevels ds global [] []
  | level {level : DefinitionId} {older : List DefinitionId} {definition : Definition}
      {above own : List Reference} (hd : ds.get? level = some definition)
      (habove : VisitsLevels ds global older above)
      (hown : Visits ds global level [] definition.applied own) :
      VisitsLevels ds global (level :: older) (above ++ own)

/-- **The visits of a compilation**: those of the factory's levels, and then those of the call-time
traits, which are looked up from the factory. -/
def Visited (ds : Definitions) (global : Table DefinitionId) (f : DefinitionId)
    (dynamic : List String) (vs : List Reference) : Prop :=
  ∃ levels above own, Ancestry ds f levels ∧ VisitsLevels ds global levels above ∧
    Visits ds global f [] dynamic own ∧ vs = above ++ own

namespace VisitsLevels

variable {ds : Definitions} {global : Table DefinitionId} {f : DefinitionId}
  {levels : List DefinitionId} {vs vs' : List Reference}

theorem unique (h : VisitsLevels ds global levels vs) (h' : VisitsLevels ds global levels vs') :
    vs = vs' := by
  induction h generalizing vs' with
  | nil => cases h'; rfl
  | level hd _ hown ih =>
    cases h' with
    | level hd' habove' hown' =>
      obtain rfl := Option.some.inj (hd.symm.trans hd')
      rw [ih habove', hown.unique hown']

theorem scope_mem (h : VisitsLevels ds global levels vs) {v : Reference} (hv : v ∈ vs) :
    v.scope ∈ levels := by
  induction h with
  | nil => cases hv
  | level _ _ hown ih =>
    obtain hv | hv := List.mem_append.mp hv
    · exact List.mem_cons_of_mem _ (ih hv)
    · exact hown.scope_eq hv ▸ List.mem_cons_self

theorem exists_of_ancestry (hstocked : ds.Stocked global) (ha : Ancestry ds f levels) :
    ∃ vs, VisitsLevels ds global levels vs := by
  induction ha with
  | oldest ht =>
    obtain ⟨definition, hd, _⟩ := Definitions.get?_of_template? ht
    obtain ⟨own, hown⟩ := Visits.exists_of_trail hstocked .nil definition.applied
    exact ⟨_, .level hd .nil hown⟩
  | child ht _ _ ih =>
    obtain ⟨definition, hd, _⟩ := Definitions.get?_of_template? ht
    obtain ⟨above, habove⟩ := ih
    obtain ⟨own, hown⟩ := Visits.exists_of_trail hstocked .nil definition.applied
    exact ⟨_, .level hd habove hown⟩

theorem inclusionPath (h : VisitsLevels ds global levels vs) {v : Reference} (hv : v ∈ vs) :
    ∃ definition, ds.get? v.scope = some definition ∧
      InclusionPath ds global v.scope definition.applied v.trail v.name := by
  induction h with
  | nil => cases hv
  | level hd _ hlevel ih =>
    obtain hv | hv := List.mem_append.mp hv
    · exact ih hv
    · obtain rfl := hlevel.scope_eq hv
      obtain ⟨inner, htrail, hpath⟩ := hlevel.inclusionPath hv
      rw [List.nil_append] at htrail
      exact ⟨_, hd, htrail ▸ hpath⟩

end VisitsLevels

namespace Visited

variable {ds : Definitions} {global : Table DefinitionId} {f : DefinitionId}
  {levels : List DefinitionId} {dynamic : List String} {vs vs' : List Reference}

theorem unique (h : Visited ds global f dynamic vs) (h' : Visited ds global f dynamic vs') :
    vs = vs' := by
  obtain ⟨levels, above, own, ha, habove, hown, rfl⟩ := h
  obtain ⟨levels', above', own', ha', habove', hown', rfl⟩ := h'
  obtain rfl := ha.unique ha'
  rw [habove.unique habove', hown.unique hown']

/-- References are looked up from the levels of the factory. -/
theorem scope_mem (h : Visited ds global f dynamic vs) (ha : Ancestry ds f levels) {v : Reference}
    (hv : v ∈ vs) : v.scope ∈ levels := by
  obtain ⟨levels', above, own, ha', habove, hown, rfl⟩ := h
  obtain rfl := ha.unique ha'
  obtain hv | hv := List.mem_append.mp hv
  · exact habove.scope_mem hv
  · exact hown.scope_eq hv ▸ ha.mem

/-- **Every compilation of a factory with an ancestry has its visits.** -/
theorem exists_of_ancestry (hstocked : ds.Stocked global) (ha : Ancestry ds f levels)
    (dynamic : List String) : ∃ vs, Visited ds global f dynamic vs := by
  obtain ⟨above, habove⟩ := VisitsLevels.exists_of_ancestry hstocked ha
  obtain ⟨own, hown⟩ := Visits.exists_of_trail hstocked .nil dynamic
  exact ⟨_, levels, above, own, ha, habove, hown, rfl⟩

/-- **The way to a visited reference** starts at a level, which applies what it starts with, or at
the call-time traits, which are looked up from the factory. -/
theorem inclusionPath (h : Visited ds global f dynamic vs) {v : Reference} (hv : v ∈ vs) :
    (∃ definition, ds.get? v.scope = some definition ∧
      InclusionPath ds global v.scope definition.applied v.trail v.name) ∨
    v.scope = f ∧ InclusionPath ds global f dynamic v.trail v.name := by
  obtain ⟨levels, above, own, -, habove, hown, rfl⟩ := h
  obtain hv | hv := List.mem_append.mp hv
  · exact .inl (habove.inclusionPath hv)
  · obtain ⟨inner, htrail, hpath⟩ := hown.inclusionPath hv
    rw [List.nil_append] at htrail
    exact .inr ⟨hown.scope_eq hv, htrail ▸ hpath⟩

end Visited

end TraitFactory
