import TraitFactory.Proofs.Beside
import TraitFactory.Proofs.Building
import TraitFactory.Proofs.Respelling

/-!
# Edits

All that declarations do to definitions and registries comes down to a few kinds of *edits*:
something is made, a definition gets one more attribute, trait, callback or hook, a table gets one
more entry or is emptied. Between them only objects, builders and generations change. So what every
edit preserves holds wherever declarations lead, in all registries at once.

A registry lists its factories and global traits, a factory its own traits, and a definition the
traits that it applies, all in the order in which they were declared. An edit adds at the end of one
such list at most, unless it empties a table. So what was listed once comes first in what is listed
later, as long as nothing is forgotten.
-/

namespace TraitFactory

/-! ## 1. Ordinary worlds -/

namespace World

/-- **A world in which definitions and registries keep their parts themselves**, and in which
factories stand under their own names. -/
structure Ordinary (w : World) : Prop where
  definitions : w.definitions.Plain
  plain : ∀ r reg, w.registryAt? r = some reg → reg.Plain
  names : ∀ r reg, w.registryAt? r = some reg → w.NamesKept reg

variable {w w₁ w₂ : World} {r : RegistryId} {reg : Registry}

theorem Ordinary.neat (h : w.Ordinary) (hreg : w.registryAt? r = some reg) : w.Neat r reg :=
  ⟨hreg, h.plain r reg hreg, h.definitions, h.names r reg hreg⟩

theorem registryAt?_modify (w : World) (r q : RegistryId) (f : Registry → Registry) :
    (w.modifyRegistry r f).registryAt? q =
      if r = q then (w.registryAt? q).map f else w.registryAt? q := by
  show (w.registries.modify r.index f)[q.index]? = _
  rw [Array.getElem?_modify]
  cases r
  cases q
  simp only [RegistryId.mk.injEq]
  rfl

end World

/-- **A registry with the same tables**, which keeps its parts itself if the other one does, and
whose cache holds nothing that the other's does not. -/
structure Registry.Follows (reg reg' : Registry) : Prop where
  factories : reg'.factories = reg.factories
  traits : reg'.traits = reg.traits
  plain : reg.Plain → reg'.Plain
  plans : ∀ key p, reg'.cache.plans.lookup key = some p → reg.cache.plans.lookup key = some p
  shared : ∀ name layers, reg'.cache.shared.get? name = some layers →
    reg.cache.shared.get? name = some layers

namespace Registry.Follows

variable {reg reg₁ reg₂ : Registry}

theorem refl (reg : Registry) : reg.Follows reg := ⟨rfl, rfl, id, fun _ _ h => h, fun _ _ h => h⟩

theorem trans (h : reg.Follows reg₁) (h' : reg₁.Follows reg₂) : reg.Follows reg₂ where
  factories := h'.factories.trans h.factories
  traits := h'.traits.trans h.traits
  plain := h'.plain ∘ h.plain
  plans key p hp := h.plans key p (h'.plans key p hp)
  shared name layers hs := h.shared name layers (h'.shared name layers hs)

end Registry.Follows

namespace World

/-- **A world in which nothing has been declared or compiled** since another: its definitions are
the same, and so are the tables of its registries. There may be more objects, plans and
registries, these without anything in them. -/
structure Retained (w w' : World) : Prop where
  definitions : w'.definitions = w.definitions
  heap : w.heap.size ≤ w'.heap.size
  plans : ∀ p s, w.stored? p = some s → w'.stored? p = some s
  registries : ∀ r reg, w.registryAt? r = some reg → ∃ reg', w'.registryAt? r = some reg'
  follows : ∀ r reg', w'.registryAt? r = some reg' → ((w.registryAt? r).getD {}).Follows reg'

variable {w w₁ w₂ : World}

theorem Retained.refl (w : World) : w.Retained w where
  definitions := rfl
  heap := Nat.le_refl _
  plans _ _ h := h
  registries _ reg h := ⟨reg, h⟩
  follows r reg h := by
    rw [h]
    exact .refl reg

theorem Retained.trans (h : w.Retained w₁) (h' : w₁.Retained w₂) : w.Retained w₂ where
  definitions := h'.definitions.trans h.definitions
  heap := Nat.le_trans h.heap h'.heap
  plans p s hs := h'.plans p s (h.plans p s hs)
  registries r reg hreg := by
    obtain ⟨reg₁, hreg₁⟩ := h.registries r reg hreg
    exact h'.registries r reg₁ hreg₁
  follows r reg₂ hreg₂ := by
    have hfollows := h'.follows r reg₂ hreg₂
    rcases hreg₁ : w₁.registryAt? r with _ | reg₁ <;> rw [hreg₁] at hfollows
    · -- A registry that is new now was not there before.
      have hnone : w.registryAt? r = none := by
        rcases hreg : w.registryAt? r with _ | reg
        · rfl
        · obtain ⟨reg', hreg'⟩ := h.registries r reg hreg
          cases hreg₁.symm.trans hreg'
      rwa [hnone]
    · exact (h.follows r reg₁ hreg₁).trans hfollows

/-- All that a world keeps may be kept by another one. -/
theorem retained_of_eq {w' : World} (hdefinitions : w'.definitions = w.definitions)
    (hheap : w.heap.size ≤ w'.heap.size) (hplans : w'.plans = w.plans)
    (hregistries : w'.registries = w.registries) : w.Retained w' where
  definitions := hdefinitions
  heap := hheap
  plans p s hs := by rwa [stored?, hplans]
  registries r reg hreg := ⟨reg, by rwa [registryAt?, hregistries]⟩
  follows r reg hreg := by
    rw [registryAt?, hregistries] at hreg
    rw [registryAt?, hreg]
    exact .refl reg

end World

/-- The frame of what declares and compiles nothing. -/
def Frame.retained : Frame := ⟨World.Retained, .refl, .trans⟩

instance : Frame.retained.Lenient where
  heap _ _ h := World.retained_of_eq rfl h rfl rfl
  made _ _ := World.retained_of_eq rfl (Nat.le_refl _) rfl rfl
  log _ _ := World.retained_of_eq rfl (Nat.le_refl _) rfl rfl

namespace World

variable {w w' : World} {r : RegistryId} {reg : Registry}

/-- A registry may be changed into one that follows it. -/
theorem retained_modifyRegistry {f : Registry → Registry}
    (h : ∀ reg, w.registryAt? r = some reg → reg.Follows (f reg)) :
    w.Retained (w.modifyRegistry r f) where
  definitions := rfl
  heap := Nat.le_refl _
  plans _ _ hs := hs
  registries q reg hreg := by
    rw [registryAt?_modify, hreg]
    split
    · exact ⟨f reg, rfl⟩
    · exact ⟨reg, rfl⟩
  follows q reg' hreg' := by
    rw [registryAt?_modify] at hreg'
    split at hreg'
    · subst q
      obtain ⟨reg, hreg, rfl⟩ := Option.map_eq_some_iff.mp hreg'
      rw [hreg]
      exact h reg hreg
    · rw [hreg']
      exact .refl reg'

theorem retained_touch : w.Retained (w.modifyRegistry r Registry.touch) :=
  retained_modifyRegistry fun _ _ =>
    ⟨rfl, rfl, fun hplain => { hplain with }, fun _ _ h => h, fun _ _ h => h⟩

/-- A new registry has nothing in it. -/
theorem retained_newRegistry : w.Retained { w with registries := w.registries.push {} } where
  definitions := rfl
  heap := Nat.le_refl _
  plans _ _ hs := hs
  registries q reg hreg := by
    have hlt : q.index < w.registries.size := (Array.getElem?_eq_some_iff.mp hreg).1
    exact ⟨_, Array.getElem?_push_lt hlt⟩
  follows q reg' hreg' := by
    have hpush : (w.registries.push {})[q.index]? = some reg' := hreg'
    rw [Array.getElem?_push] at hpush
    split at hpush
    · rename_i hindex
      cases hpush
      have hnone : w.registryAt? q = none := Array.getElem?_eq_none (Nat.le_of_eq hindex.symm)
      rw [hnone]
      exact .refl {}
    · have hreg : w.registryAt? q = some reg' := hpush
      rw [hreg]
      exact .refl reg'

/-- An empty registry keeps its parts itself. -/
theorem plain_empty_registry : ({} : Registry).Plain :=
  ⟨⟨∅, rfl⟩, ⟨∅, rfl⟩, rfl, rfl, rfl, rfl⟩

theorem Ordinary.retained (h : w.Ordinary) (hr : w.Retained w') : w'.Ordinary := by
  refine ⟨hr.definitions ▸ h.definitions, fun r reg' hreg' => ?_, fun r reg' hreg' => ?_⟩ <;>
    have hfollows := hr.follows r reg' hreg' <;>
    rcases hreg : w.registryAt? r with _ | reg <;> rw [hreg] at hfollows
  · exact hfollows.plain plain_empty_registry
  · exact hfollows.plain (h.plain r reg hreg)
  · intro name f hf
    rw [Registry.factory?, hfollows.factories] at hf
    cases hf
  · have hnames := h.names r reg hreg
    unfold NamesKept Registry.factory? at hnames ⊢
    rwa [hr.definitions, hfollows.factories]

/-! ## 2. Edits -/

/-- What may be the parent of a factory that is made: nothing, or a definition that is there. -/
def Parent (w : World) (parent : Value) : Prop :=
  parent = .null ∨ ∃ p x, parent = .definition p ∧ w.definitions.get? p = some x

theorem Parent.retained {parent : Value} (h : w.Parent parent) (hr : w.Retained w') :
    w'.Parent parent := by
  obtain hnull | ⟨p, x, hp, hx⟩ := h
  · exact .inl hnull
  · exact .inr ⟨p, x, hp, hr.definitions ▸ hx⟩

/-- **One edit of a world.** What is declared on a definition bears its label, and a callback is
an object of its own, made for it. What is put in a table is there. -/
inductive Edit (w : World) : World → Prop
  | retained {w' : World} (h : w.Retained w') : Edit w w'
  | trait (name : String) : Edit w (w.making (.newTrait name))
  | factory (name : String) (applied : List String) {parent : Value} (model : Value)
      (h : w.Parent parent) : Edit w (w.making (.newFactory name applied parent model))
  | declared {d : DefinitionId} {x : Definition} {declaration : Declaration}
      (hd : w.definitions.get? d = some x) (horigin : declaration.origin = x.label) :
      Edit w (w.modifyDefinition d fun x =>
        { x with attributes := x.attributes.modify (·.declare declaration) })
  | applied (d : DefinitionId) (name : String) :
      Edit w (w.modifyDefinition d fun x =>
        { x with appliedTraits := x.appliedTraits.modify (· ++ [name]) })
  | hooked (d : DefinitionId) (constructor persistor : Definition → Option Value) :
      Edit w (w.modifyDefinition d fun x =>
        { x with constructor := constructor x, persistor := persistor x })
  | called {d : DefinitionId} {x : Definition} {c : Callback} {h : Heap}
      (hd : w.definitions.get? d = some x) (howner : c.owner = x.label)
      (hfresh : w.heap.size ≤ c.object.index) (hplaced : c.object.index < h.size) :
      Edit w (World.modifyDefinition { w with heap := h } d fun x =>
        { x with callbacks := x.callbacks.modify (· ++ [c]) })
  | locally {f d : DefinitionId} {x y : Definition} {t : Template} {table : Table DefinitionId}
      (hf : w.definitions.get? f = some x) (ht : x.template = some t) (htable : t.traits = .own table)
      (hd : w.definitions.get? d = some y) (name : String) :
      Edit w (w.modifyDefinition f fun x =>
        x.modifyTemplate fun t => { t with traits := .own (table.insert name d) })
  | globally {r : RegistryId} {reg : Registry} {d : DefinitionId} {y : Definition}
      (hreg : w.registryAt? r = some reg) (hd : w.definitions.get? d = some y) (name : String) :
      Edit w (w.modifyRegistry r fun reg' =>
        { reg' with traits := .own (reg.globals.insert name d) })
  | enrolled {r : RegistryId} {reg : Registry} {table : Table DefinitionId} {d : DefinitionId}
      {y : Definition} (hreg : w.registryAt? r = some reg) (htable : reg.factories = .own table)
      (hd : w.definitions.get? d = some y) :
      Edit w (w.modifyRegistry r fun reg' =>
        { reg' with factories := .own (table.insert y.name d) })
  | noFactories (r : RegistryId) :
      Edit w (w.modifyRegistry r fun reg => { reg with factories := .own ∅ })
  | noTraits (r : RegistryId) :
      Edit w (w.modifyRegistry r fun reg => { reg with traits := .own ∅ })

/-- **A world that edits have led to** from another. -/
def Edited : World → World → Prop := Relation.ReflTransGen Edit

/-- A definition may be changed as long as it stays plain and keeps its name. -/
theorem Ordinary.modifyDefinition (h : w.Ordinary) (d : DefinitionId) {f : Definition → Definition}
    (hplain : ∀ x : Definition, x.Plain → (f x).Plain) (hname : ∀ x, (f x).name = x.name) :
    (w.modifyDefinition d f).Ordinary := by
  refine ⟨fun e x hx => ?_, h.plain, fun r reg hreg name e he => ?_⟩
  · rw [get?_modifyDefinition] at hx
    split at hx
    · obtain ⟨y, hy, rfl⟩ := Option.map_eq_some_iff.mp hx
      exact hplain y (h.definitions e y hy)
    · exact h.definitions e x hx
  · obtain ⟨x, hx, rfl⟩ := h.names r reg hreg name e he
    rw [get?_modifyDefinition, hx]
    split
    · exact ⟨f x, rfl, hname x⟩
    · exact ⟨x, rfl, rfl⟩

/-- A registry may be changed as long as it stays plain and factories keep their own names. -/
theorem Ordinary.modifyRegistry (h : w.Ordinary) {f : Registry → Registry}
    (hf : ∀ reg, w.registryAt? r = some reg → (f reg).Plain ∧ w.NamesKept (f reg)) :
    (w.modifyRegistry r f).Ordinary := by
  have hcases : ∀ q reg', (w.modifyRegistry r f).registryAt? q = some reg' →
      reg'.Plain ∧ w.NamesKept reg' := by
    intro q reg' hreg'
    rw [registryAt?_modify] at hreg'
    split at hreg'
    · subst q
      obtain ⟨reg, hreg, rfl⟩ := Option.map_eq_some_iff.mp hreg'
      exact hf reg hreg
    · exact ⟨h.plain q reg' hreg', h.names q reg' hreg'⟩
  exact ⟨h.definitions, fun q reg' hreg' => (hcases q reg' hreg').1,
    fun q reg' hreg' => (hcases q reg' hreg').2⟩

theorem Ordinary.making (h : w.Ordinary) {x : Definition} (hx : x.Plain) :
    (w.making x).Ordinary := by
  refine ⟨fun d y hy => ?_, h.plain, fun r reg hreg name f hf => ?_⟩
  · have hpush : (w.definitions.push x).get? d = some y := hy
    rw [Definitions.get?_push] at hpush
    split at hpush
    · exact Option.some.inj hpush ▸ hx
    · exact h.definitions d y hpush
  · obtain ⟨y, hy, hname⟩ := h.names r reg hreg name f hf
    exact ⟨y, (Definitions.growsTo_push _ _).2 f y hy, hname⟩

/-- **Every edit of an ordinary world leaves it ordinary.** -/
theorem Ordinary.edit (h : w.Ordinary) (he : w.Edit w') : w'.Ordinary := by
  cases he with
  | retained hr => exact h.retained hr
  | trait name => exact h.making (Action.plain_empty name)
  | factory name applied model _ => exact h.making (Action.plain_factory name applied _ model)
  | @declared d x declaration =>
    exact h.modifyDefinition d (fun _ hx => hx.declare declaration) fun _ => rfl
  | applied d name => exact h.modifyDefinition d (fun _ hx => hx.apply [name]) fun _ => rfl
  | hooked d constructor persistor =>
    exact h.modifyDefinition d (fun _ hx => hx.hook _ _) fun _ => rfl
  | @called d x c heap =>
    have hheap : World.Ordinary { w with heap := heap } := ⟨h.definitions, h.plain, h.names⟩
    exact hheap.modifyDefinition d (fun _ hx => hx.call c) fun _ => rfl
  | @locally f d x y t table =>
    exact h.modifyDefinition f (fun _ hx => hx.withTable _) fun _ => rfl
  | globally hreg hd name =>
    exact h.modifyRegistry fun reg' hreg' =>
      ⟨(h.plain _ reg' hreg').withTraits _, h.names _ reg' hreg'⟩
  | enrolled hreg htable hd =>
    refine h.modifyRegistry fun reg' hreg' => ⟨(h.plain _ reg' hreg').withFactories _, ?_⟩
    obtain rfl := Option.some.inj (hreg.symm.trans hreg')
    exact (h.names _ _ hreg).insert (fun _ => by rw [Registry.factory?, htable]; rfl) hd
  | noFactories r =>
    refine h.modifyRegistry fun reg' hreg' => ⟨(h.plain _ reg' hreg').withFactories _, ?_⟩
    intro name f hf
    cases hf
  | noTraits r =>
    exact h.modifyRegistry fun reg' hreg' =>
      ⟨(h.plain _ reg' hreg').withTraits _, h.names _ reg' hreg'⟩

theorem Ordinary.edited (h : w.Ordinary) (he : w.Edited w') : w'.Ordinary := by
  induction he with
  | refl => exact h
  | tail _ hedit ih => exact ih.edit hedit

theorem Edit.edited (h : w.Edit w') : w.Edited w' := .single h

theorem Retained.edited (h : w.Retained w') : w.Edited w' := (Edit.retained h).edited

theorem Edited.trans {w₁ : World} (h : w.Edited w₁) (h' : w₁.Edited w') : w.Edited w' :=
  Relation.ReflTransGen.trans h h'

end World

/-! ## 3. Lists that begin with others -/

namespace Table

variable {α : Type} {t : Table α} {k : String}

/-- An entry with a new key stands at the end. -/
theorem prefix_insert (h : t.get? k = none) (v : α) : t.entries <+: (t.insert k v).entries := by
  have hnew : k ∉ t.entries.map (·.1) := fun hmem => by
    rw [← keys, ← isSome_get?_iff, h] at hmem
    cases hmem
  rw [insert, insertEntry_of_not_mem v hnew]
  exact List.prefix_append _ _

end Table

namespace Definition

/-- The traits that a factory declares for itself and its descendants, by their names in the order
in which they are declared. -/
def locals (x : Definition) : Table DefinitionId := (x.template.bind (·.traits.own?)).getD ∅

/-- **A definition before further declarations**: all that it lists comes first in what is listed
later, and its name, parent and model stay. -/
structure Precedes (x x' : Definition) : Prop where
  name : x'.name = x.name
  parent : x'.template.map (·.parent) = x.template.map (·.parent)
  model : x'.template.map (·.model) = x.template.map (·.model)
  applied : x.applied <+: x'.applied
  locals : x.locals.entries <+: x'.locals.entries

namespace Precedes

variable {x x' x'' : Definition}

theorem refl (x : Definition) : x.Precedes x :=
  ⟨rfl, rfl, rfl, List.prefix_rfl, List.prefix_rfl⟩

theorem trans (h : x.Precedes x') (h' : x'.Precedes x'') : x.Precedes x'' where
  name := h'.name.trans h.name
  parent := h'.parent.trans h.parent
  model := h'.model.trans h.model
  applied := h.applied.trans h'.applied
  locals := h.locals.trans h'.locals

/-- Attributes, hooks and callbacks are not listed here. -/
theorem of_eq (hname : x'.name = x.name) (htemplate : x'.template = x.template)
    (happlied : x'.appliedTraits = x.appliedTraits) : x.Precedes x' where
  name := hname
  parent := by rw [htemplate]
  model := by rw [htemplate]
  applied := by
    have hsame : x.applied = x'.applied := by rw [Definition.applied, Definition.applied, happlied]
    exact hsame ▸ List.prefix_rfl
  locals := by
    have hsame : x.locals = x'.locals := by rw [Definition.locals, Definition.locals, htemplate]
    exact hsame ▸ List.prefix_rfl

/-- One more trait is applied. -/
theorem apply (x : Definition) (name : String) :
    x.Precedes { x with appliedTraits := x.appliedTraits.modify (· ++ [name]) } where
  name := rfl
  parent := rfl
  model := rfl
  applied := by
    rcases h : x.appliedTraits with names | v <;> simp [Definition.applied, h, Slot.modify, Slot.own?]
  locals := List.prefix_rfl

/-- One more local trait is declared, under a name that is free. -/
theorem withLocal {t : Template} {table : Table DefinitionId} (ht : x.template = some t)
    (htable : t.traits = .own table) {name : String} (hfree : table.get? name = none)
    (d : DefinitionId) :
    x.Precedes (x.modifyTemplate fun t => { t with traits := .own (table.insert name d) }) where
  name := rfl
  parent := by rw [modifyTemplate, ht]; rfl
  model := by rw [modifyTemplate, ht]; rfl
  applied := List.prefix_rfl
  locals := by
    have hbefore : x.locals = table := by simp [Definition.locals, ht, htable]
    rw [hbefore, Definition.locals, modifyTemplate, ht]
    exact Table.prefix_insert hfree d

end Precedes

end Definition

namespace Registry

/-- The factories of a registry by their names. -/
def enrolled (reg : Registry) : Table DefinitionId := reg.factories.own?.getD ∅

theorem Plain.enrolled_eq {reg : Registry} (h : reg.Plain) : reg.factories = .own reg.enrolled := by
  obtain ⟨table, htable⟩ := h.factories
  simp [enrolled, htable]

theorem Plain.factory?_eq {reg : Registry} (h : reg.Plain) (name : String) :
    reg.factory? name = reg.enrolled.get? name := by
  rw [factory?, h.enrolled_eq]
  rfl

/-- **A registry before further registrations**: all that it lists comes first in what is listed
later. -/
structure Precedes (reg reg' : Registry) : Prop where
  factories : reg.enrolled.entries <+: reg'.enrolled.entries
  traits : reg.globals.entries <+: reg'.globals.entries

namespace Precedes

variable {reg reg' reg'' : Registry}

theorem trans (h : reg.Precedes reg') (h' : reg'.Precedes reg'') : reg.Precedes reg'' :=
  ⟨h.factories.trans h'.factories, h.traits.trans h'.traits⟩

/-- What registries do besides is not listed here. -/
theorem of_eq (hfactories : reg'.factories = reg.factories) (htraits : reg'.traits = reg.traits) :
    reg.Precedes reg' where
  factories := by
    have hsame : reg.enrolled = reg'.enrolled := by rw [enrolled, enrolled, hfactories]
    exact hsame ▸ List.prefix_rfl
  traits := by
    have hsame : reg.globals = reg'.globals := by rw [globals, globals, htraits]
    exact hsame ▸ List.prefix_rfl

end Precedes

end Registry

namespace World

/-- **A world before further declarations**: all that its registries and definitions list comes first
in what they list later. -/
structure Precedes (w w' : World) : Prop where
  definitions : ∀ d x, w.definitions.get? d = some x →
    ∃ x', w'.definitions.get? d = some x' ∧ x.Precedes x'
  registries : ∀ r reg, w.registryAt? r = some reg →
    ∃ reg', w'.registryAt? r = some reg' ∧ reg.Precedes reg'

variable {w w₁ w' : World} {r : RegistryId} {reg : Registry} {d : DefinitionId}

theorem Precedes.trans (h : w.Precedes w₁) (h' : w₁.Precedes w') : w.Precedes w' where
  definitions d x hd := by
    obtain ⟨x₁, hd₁, hx₁⟩ := h.definitions d x hd
    obtain ⟨x', hd', hx'⟩ := h'.definitions d x₁ hd₁
    exact ⟨x', hd', hx₁.trans hx'⟩
  registries r reg hr := by
    obtain ⟨reg₁, hr₁, hreg₁⟩ := h.registries r reg hr
    obtain ⟨reg', hr', hreg'⟩ := h'.registries r reg₁ hr₁
    exact ⟨reg', hr', hreg₁.trans hreg'⟩

/-! ## 4. What edits leave listed -/

theorem Retained.precedes (h : w.Retained w') : w.Precedes w' where
  definitions d x hd := ⟨x, by rw [h.definitions, hd], .refl x⟩
  registries r reg hreg := by
    obtain ⟨reg', hreg'⟩ := h.registries r reg hreg
    have hfollows := h.follows r reg' hreg'
    rw [hreg] at hfollows
    exact ⟨reg', hreg', .of_eq hfollows.factories hfollows.traits⟩

theorem Precedes.refl (w : World) : w.Precedes w := (Retained.refl w).precedes

/-- What is made by itself is listed nowhere. -/
theorem precedes_making (w : World) (x : Definition) : w.Precedes (w.making x) where
  definitions d y hd := ⟨y, (Definitions.growsTo_push _ _).2 d y hd, .refl y⟩
  registries _ reg hreg := ⟨reg, hreg, .of_eq rfl rfl⟩

theorem precedes_modifyDefinition {f : Definition → Definition}
    (h : ∀ x, w.definitions.get? d = some x → x.Precedes (f x)) :
    w.Precedes (w.modifyDefinition d f) where
  definitions e y hy := by
    rw [get?_modifyDefinition, hy]
    split
    · subst e
      exact ⟨f y, rfl, h y hy⟩
    · exact ⟨y, rfl, .refl y⟩
  registries _ reg hreg := ⟨reg, hreg, .of_eq rfl rfl⟩

/-- A change of attributes, hooks or callbacks is not listed here. -/
theorem precedes_unlisted (d : DefinitionId) {f : Definition → Definition}
    (hname : ∀ x, (f x).name = x.name) (htemplate : ∀ x, (f x).template = x.template)
    (happlied : ∀ x, (f x).appliedTraits = x.appliedTraits) :
    w.Precedes (w.modifyDefinition d f) :=
  precedes_modifyDefinition fun x _ => .of_eq (hname x) (htemplate x) (happlied x)

theorem precedes_modifyRegistry {f : Registry → Registry}
    (h : ∀ reg, w.registryAt? r = some reg → reg.Precedes (f reg)) :
    w.Precedes (w.modifyRegistry r f) where
  definitions _ x hd := ⟨x, hd, .refl x⟩
  registries q reg hreg := by
    rw [registryAt?_modify, hreg]
    split
    · subst q
      exact ⟨f reg, rfl, h reg hreg⟩
    · exact ⟨reg, rfl, .of_eq rfl rfl⟩

/-- A factory is registered under a name that is free. -/
theorem precedes_enrol {table : Table DefinitionId} (hreg : w.registryAt? r = some reg)
    (htable : reg.factories = .own table) {name : String} (hfree : table.get? name = none) :
    w.Precedes (w.modifyRegistry r fun reg' =>
      { reg' with factories := .own (table.insert name d) }) := by
  refine precedes_modifyRegistry fun reg' hreg' => ⟨?_, List.prefix_rfl⟩
  obtain rfl := Option.some.inj (hreg.symm.trans hreg')
  have hbefore : reg.enrolled = table := by rw [Registry.enrolled, htable]; rfl
  rw [hbefore]
  exact Table.prefix_insert hfree d

/-- A global trait is registered under a name that is free. -/
theorem precedes_globally (hreg : w.registryAt? r = some reg) {name : String}
    (hfree : reg.globals.get? name = none) :
    w.Precedes (w.modifyRegistry r fun reg' =>
      { reg' with traits := .own (reg.globals.insert name d) }) := by
  refine precedes_modifyRegistry fun reg' hreg' => ⟨List.prefix_rfl, ?_⟩
  obtain rfl := Option.some.inj (hreg.symm.trans hreg')
  exact Table.prefix_insert hfree d

end World

end TraitFactory
