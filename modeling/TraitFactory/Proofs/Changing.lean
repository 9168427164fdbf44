import TraitFactory.Builder
import TraitFactory.Proofs.Compiling

/-!
# What may become of a registry

Seen from one registry a world changes in one of three ways. Something else happens, *aside*: no
definition is changed. Definitions or tables are changed, while the cache and the generation are
*kept*: a state that no public operation may end in. Or the registry is *changed* and its
generation raised, so that nothing that its cache holds counts any longer. A declaration *settles*:
it changes the registry when it succeeds, and when it fails it was aside.
-/

namespace TraitFactory

/-! ## 1. Three ways to change -/

namespace World

/-- **Something beside a registry**: nothing that a compilation in it reads has changed. -/
structure Aside (r : RegistryId) (w w' : World) : Prop where
  neat : ∀ reg, w.Neat r reg → w'.Neat r reg
  grows : w'.Extends w
  builders : ∀ b builder, w.builder? b = some builder → w'.builder? b = some builder

/-- **A change that the cache has not been told of**: definitions and tables may be others, the
cache is what it was, and the generation has not gone back. -/
structure Kept (r : RegistryId) (w w' : World) : Prop where
  neat : ∀ reg, w.Neat r reg → ∃ reg', w'.Neat r reg' ∧ reg'.cache = reg.cache ∧
    reg.generation ≤ reg'.generation
  plans : ∀ p s, w.stored? p = some s → w'.stored? p = some s
  builders : ∀ b builder, w.builder? b = some builder → w'.builder? b = some builder

/-- **A change of a registry**, which has raised its generation. -/
structure Changed (r : RegistryId) (w w' : World) : Prop where
  neat : ∀ reg, w.Neat r reg → ∃ reg', w'.Neat r reg' ∧ reg'.cache = reg.cache ∧
    reg.generation < reg'.generation
  plans : ∀ p s, w.stored? p = some s → w'.stored? p = some s
  builders : ∀ b builder, w.builder? b = some builder → w'.builder? b = some builder

variable {r : RegistryId} {w w₁ w₂ : World}

theorem Aside.refl (w : World) : w.Aside r w := ⟨fun _ h => h, .refl w, fun _ _ h => h⟩

theorem Aside.trans (h : w.Aside r w₁) (h' : w₁.Aside r w₂) : w.Aside r w₂ :=
  ⟨fun reg hn => h'.neat reg (h.neat reg hn), h.grows.trans h'.grows,
    fun b builder hb => h'.builders b builder (h.builders b builder hb)⟩

theorem Aside.kept (h : w.Aside r w₁) : w.Kept r w₁ :=
  ⟨fun reg hn => ⟨reg, h.neat reg hn, rfl, Int.le_refl _⟩, h.grows.plans, h.builders⟩

theorem Kept.refl (w : World) : w.Kept r w := (Aside.refl w).kept

theorem Kept.trans (h : w.Kept r w₁) (h' : w₁.Kept r w₂) : w.Kept r w₂ := by
  refine ⟨fun reg hn => ?_, fun p s hp => h'.plans p s (h.plans p s hp),
    fun b builder hb => h'.builders b builder (h.builders b builder hb)⟩
  obtain ⟨reg₁, hn₁, hcache₁, hle₁⟩ := h.neat reg hn
  obtain ⟨reg₂, hn₂, hcache₂, hle₂⟩ := h'.neat reg₁ hn₁
  exact ⟨reg₂, hn₂, hcache₂.trans hcache₁, Int.le_trans hle₁ hle₂⟩

/-- Whatever went before, a change is a change. -/
theorem Kept.changed (h : w.Kept r w₁) (h' : w₁.Changed r w₂) : w.Changed r w₂ := by
  refine ⟨fun reg hn => ?_, fun p s hp => h'.plans p s (h.plans p s hp),
    fun b builder hb => h'.builders b builder (h.builders b builder hb)⟩
  obtain ⟨reg₁, hn₁, hcache₁, hle₁⟩ := h.neat reg hn
  obtain ⟨reg₂, hn₂, hcache₂, hlt₂⟩ := h'.neat reg₁ hn₁
  exact ⟨reg₂, hn₂, hcache₂.trans hcache₁, Int.lt_of_le_of_lt hle₁ hlt₂⟩

/-- Nor does it matter what comes after it. -/
theorem Changed.trans_kept (h : w.Changed r w₁) (h' : w₁.Kept r w₂) : w.Changed r w₂ := by
  refine ⟨fun reg hn => ?_, fun p s hp => h'.plans p s (h.plans p s hp),
    fun b builder hb => h'.builders b builder (h.builders b builder hb)⟩
  obtain ⟨reg₁, hn₁, hcache₁, hlt₁⟩ := h.neat reg hn
  obtain ⟨reg₂, hn₂, hcache₂, hle₂⟩ := h'.neat reg₁ hn₁
  exact ⟨reg₂, hn₂, hcache₂.trans hcache₁, Int.lt_of_lt_of_le hlt₁ hle₂⟩

theorem Undisturbed.aside (h : w.Undisturbed w₁) : w.Aside r w₁ where
  neat _ hn := hn.undisturbed h
  grows := ⟨by rw [h.definitions]; exact .refl _, fun p s hp => (h.stored? p).trans hp⟩
  builders b builder hb := by
    rw [builder?, h.builders]
    exact hb

/-- **A builder of a registry.** -/
def Builds (w : World) (r : RegistryId) (on : Value) : Prop :=
  ∃ b builder, on = .builder b ∧ w.builder? b = some builder ∧ builder.registry = .registry r

theorem Kept.builds (h : w.Kept r w₁) {on : Value} (hon : w.Builds r on) : w₁.Builds r on := by
  obtain ⟨b, builder, rfl, hb, hr⟩ := hon
  exact ⟨b, builder, rfl, h.builders b builder hb, hr⟩

end World

/-- The frame of what happens beside a registry. -/
def Frame.aside (r : RegistryId) : Frame := ⟨World.Aside r, .refl, .trans⟩

/-- The frame of changes that a cache has not been told of. -/
def Frame.kept (r : RegistryId) : Frame := ⟨World.Kept r, .refl, .trans⟩

/-! ## 2. Changes of the parts of a world -/

namespace World

variable {r : RegistryId} {w : World} {reg : Registry}

/-- A new definition is beside everything. -/
theorem aside_pushDefinition {definition : Definition} (hplain : definition.Plain) :
    w.Aside r { w with definitions := w.definitions.push definition } where
  neat reg hn := by
    refine ⟨hn.registry, hn.plain, fun d x hx => ?_, fun name f hf => ?_⟩
    · -- Either the new definition is meant or one of the old ones.
      rw [Definitions.get?_push] at hx
      split at hx
      · exact Option.some.inj hx ▸ hplain
      · exact hn.definitions d x hx
    · obtain ⟨x, hx, hname⟩ := hn.names name f hf
      exact ⟨x, (Definitions.growsTo_push _ _).2 f x hx, hname⟩
  grows := ⟨Definitions.growsTo_push _ _, fun _ _ h => h⟩
  builders _ _ h := h

theorem aside_pushBuilder (builder : Builder) :
    w.Aside r { w with builders := w.builders.push builder } where
  neat _ hn := ⟨hn.registry, hn.plain, hn.definitions, hn.names⟩
  grows := ⟨.refl _, fun _ _ h => h⟩
  builders b x hb := by
    have hlt : b.index < w.builders.size := (Array.getElem?_eq_some_iff.mp hb).1
    show (w.builders.push builder)[b.index]? = some x
    rw [Array.getElem?_push_lt hlt]
    exact (Array.getElem?_eq_getElem hlt).symm.trans hb

theorem get?_modifyDefinition (d : DefinitionId) (f : Definition → Definition)
    (e : DefinitionId) : (w.modifyDefinition d f).definitions.get? e =
      if d = e then (w.definitions.get? e).map f else w.definitions.get? e :=
  w.definitions.get?_modify d f e

/-- A definition that stays plain and keeps its name may be changed. -/
theorem kept_modifyDefinition (d : DefinitionId) {f : Definition → Definition}
    (hplain : ∀ x : Definition, x.Plain → (f x).Plain) (hname : ∀ x, (f x).name = x.name) :
    w.Kept r (w.modifyDefinition d f) where
  neat reg hn := by
    refine ⟨reg, ⟨hn.registry, hn.plain, fun e x hx => ?_, fun name e he => ?_⟩, rfl,
      Int.le_refl _⟩
    · rw [get?_modifyDefinition] at hx
      split at hx
      · obtain ⟨y, hy, rfl⟩ := Option.map_eq_some_iff.mp hx
        exact hplain y (hn.definitions e y hy)
      · exact hn.definitions e x hx
    · obtain ⟨x, hx, rfl⟩ := hn.names name e he
      rw [get?_modifyDefinition, hx]
      split
      · exact ⟨f x, rfl, hname x⟩
      · exact ⟨x, rfl, rfl⟩
  plans _ _ h := h
  builders _ _ h := h

/-- A table may be replaced in a registry by another one that is its own, as long as factories
stand under their own names. -/
theorem kept_modifyRegistry {f : Registry → Registry}
    (h : ∀ reg, w.Neat r reg → (f reg).Plain ∧ w.NamesKept (f reg) ∧
      (f reg).cache = reg.cache ∧ (f reg).generation = reg.generation) :
    w.Kept r (w.modifyRegistry r f) where
  neat reg hn := by
    obtain ⟨hplain, hnames, hcache, hgeneration⟩ := h reg hn
    exact ⟨f reg, ⟨registryAt?_modifyRegistry hn.registry f, hplain, hn.definitions, hnames⟩,
      hcache, Int.le_of_eq hgeneration.symm⟩
  plans _ _ h := h
  builders _ _ h := h

theorem changed_touch : w.Changed r (w.modifyRegistry r Registry.touch) where
  neat reg hn := by
    exact ⟨reg.touch, ⟨registryAt?_modifyRegistry hn.registry _, { hn.plain with },
      hn.definitions, hn.names⟩, rfl, Int.lt_succ _⟩
  plans _ _ h := h
  builders _ _ h := h

end World

namespace Action

variable {α β : Type} {r : RegistryId} {w : World} {reg : Registry} {on : Value}

/-! ## 3. Actions that settle -/

/-- **An attempt at a change**: when it fails everything was beside the registry. -/
def Attempts (r : RegistryId) (a : Action α) : Prop :=
  ∀ w : World, Leads a w (fun _ w' => w.Kept r w') (w.Aside r)

/-- **A declaration settles**: it changes the registry, or fails and was beside it. -/
def Settles (r : RegistryId) (a : Action α) (w : World) : Prop :=
  Leads a w (fun _ w' => w.Changed r w') (w.Aside r)

theorem Keeps.attempts {a : Action α} (h : Keeps (.aside r) a) : Attempts r a := fun _ =>
  h.leads (fun _ _ h => h.kept) fun _ h => h

theorem attempts_bind {a : Action β} {f : β → Action α} (ha : Keeps (.aside r) a)
    (hf : ∀ x, Attempts r (f x)) : Attempts r (a >>= f) := by
  intro w
  rw [leads_bind]
  refine ha.leads (fun x w₁ h => ?_) fun w₁ h => h
  exact (hf x w₁).imp (fun _ _ h' => h.kept.trans h') fun _ h' => h.trans h'

theorem attempts_modify {f : World → World} (h : ∀ w : World, w.Kept r (f w)) :
    Attempts r (modify f : Action PUnit) := h

theorem settles_bind {a : Action β} {f : β → Action α} (ha : Keeps (.aside r) a)
    (hf : ∀ x w', w.Aside r w' → Settles r (f x) w') : Settles r (a >>= f) w := by
  unfold Settles
  rw [leads_bind]
  refine ha.leads (fun x w₁ h => ?_) fun w₁ h => h
  exact (hf x w₁ h).imp (fun _ _ h' => h.kept.changed h') fun _ h' => h.trans h'

/-- An action of which each success changes the registry, with something after it that does not
fail and is beside the registry. -/
theorem Settles.bind_ok {a : Action β} {f : β → Action α} (ha : Settles r a w)
    (hf : ∀ x w', ∃ y w'', (f x).execute w' = (.ok y, w'') ∧ w'.Aside r w'') :
    Settles r (a >>= f) w := by
  unfold Settles
  rw [leads_bind]
  refine ha.imp (fun x w₁ h => ?_) fun _ h => h
  obtain ⟨y, w₂, hexec, haside⟩ := hf x w₁
  unfold Leads
  rw [hexec]
  exact h.trans_kept haside.kept

theorem Settles.bind_pure {a : Action β} {f : β → α} (ha : Settles r a w) :
    Settles r (a >>= fun x => pure (f x)) w :=
  ha.bind_ok fun x w' => ⟨f x, w', rfl, .refl w'⟩

theorem settles_fail (c : Cause) : Settles r (fail c : Action α) w := World.Aside.refl w

theorem settles_touch : Settles r (touch r) w := World.changed_touch

theorem execute_getBuilder {b : BuilderId} {builder : Builder} (h : w.builder? b = some builder) :
    (getBuilder b).execute w = (.ok builder, w) := by
  rw [getBuilder, execute_bind_ok (execute_get w), h]
  rfl

/-- A builder tells its registry of a change. -/
theorem execute_touchFor (hon : w.Builds r on) :
    (touchFor on).execute w = (.ok ⟨⟩, w.modifyRegistry r Registry.touch) := by
  obtain ⟨b, builder, rfl, hb, hr⟩ := hon
  have hregistry : (requireRegistry builder.registry).execute w = (.ok r, w) := by
    rw [hr]
    rfl
  rw [touchFor, execute_bind_ok (execute_getBuilder hb), execute_bind_ok hregistry]
  rfl

/-- **An attempt at a change settles when a builder tells its registry of it.** -/
theorem Attempts.told {a : Action β} (ha : Attempts r a) (hon : w.Builds r on) (f : β → α) :
    Settles r (do let x ← a; touchFor on; return f x) w := by
  unfold Settles
  rw [leads_bind]
  refine (ha w).imp (fun x w₁ h => ?_) fun _ h => h
  unfold Leads
  rw [execute_bind_ok (execute_touchFor (h.builds hon))]
  exact h.changed World.changed_touch

end Action

end TraitFactory
