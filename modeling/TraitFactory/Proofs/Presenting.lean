import TraitFactory.Compile
import TraitFactory.Proofs.Apart

/-!
# What registries present

The generation of a registry is a mere count, and what a cache holds for an older generation is
dropped before the cache is looked into again. Two registries that differ in nothing else are alike,
and so are two worlds whose registries are. What has been logged may differ, too, unless worlds are
looked at more closely. An action is *uniform* if it does the same in alike worlds: the outcome is the
same, and the worlds that it leaves are alike again.
-/

namespace TraitFactory

/-- **How closely worlds are looked at**: whether what registries count and what is old in their
caches matters, and whether it matters what has been logged. -/
class Scrutiny where
  counts : Prop
  log : Prop

/-! ## 1. Registries -/

/-- **What a cache holds for a generation.** -/
def PlanCache.presented (c : PlanCache) (generation : Int) : PlanCache :=
  if c.generation = generation then { c with generation := 0 }
  else { c with plans := [], shared := ∅, placed := ∅, generation := 0 }

/-- A registry without its count, and with what its cache holds for the present generation. -/
def Registry.presented (reg : Registry) : Registry :=
  { reg with generation := 0, cache := reg.cache.presented reg.generation }

/-- **A registry that keeps its cache to itself**: it compiles for itself, looks definitions up in
itself and has handed out no dictionary of its cache, which belongs to no generation that is yet to
come. -/
structure Registry.Secluded (reg : Registry) : Prop where
  past : reg.cache.generation ≤ reg.generation
  resolver : reg.resolver = none
  source : reg.cache.registry = none
  handedPlans : reg.cache.handedPlans = none
  handedLayers : reg.cache.handedLayers = none

/-- **Registries that are alike**: they present the same, and are the same if their counts matter. -/
structure Registry.Like [Scrutiny] (reg reg' : Registry) : Prop where
  presented : reg'.presented = reg.presented
  left : reg.Secluded
  right : reg'.Secluded
  same : Scrutiny.counts → reg' = reg

namespace PlanCache

theorem presented_now (c : PlanCache) : c.presented c.generation = { c with generation := 0 } :=
  if_pos rfl

theorem presented_old {c : PlanCache} {generation : Int} (h : c.generation < generation) :
    c.presented generation = { c with plans := [], shared := ∅, placed := ∅, generation := 0 } :=
  if_neg (Int.ne_of_lt h)

@[simp] theorem enabled_presented (c : PlanCache) (generation : Int) :
    (c.presented generation).enabled = c.enabled := by
  unfold presented
  split <;> rfl

/-- Switching a cache changes nothing that it holds. -/
theorem presented_switched (c : PlanCache) (generation : Int) (enabled : Bool) (flag : Value) :
    { c with enabled := enabled, flag := flag }.presented generation =
      { c.presented generation with enabled := enabled, flag := flag } := by
  unfold presented
  split <;> rfl

theorem presented_clear (c : PlanCache) (generation : Int) :
    c.clear.presented generation = (c.presented generation).clear := by
  unfold presented clear
  split <;> rfl

/-- Dropping what is old anyway changes nothing either. -/
theorem presented_refresh (c : PlanCache) (generation : Int) :
    (c.refresh generation).presented generation = c.presented generation := by
  unfold refresh
  split
  · rename_i hold
    simp only [Bool.and_eq_true, decide_eq_true_eq] at hold
    rw [presented, presented, if_pos rfl, if_neg hold.2]
  · rfl

end PlanCache

variable [Scrutiny]

namespace Registry

variable {reg reg' : Registry}

theorem Like.refl (h : reg.Secluded) : reg.Like reg := ⟨rfl, h, h, fun _ => rfl⟩

theorem Like.factories (h : reg.Like reg') : reg'.factories = reg.factories := by
  have h : reg'.presented.factories = reg.presented.factories := by rw [h.presented]
  exact h

theorem Like.traits (h : reg.Like reg') : reg'.traits = reg.traits := by
  have h : reg'.presented.traits = reg.presented.traits := by rw [h.presented]
  exact h

theorem Like.cache (h : reg.Like reg') :
    reg'.cache.presented reg'.generation = reg.cache.presented reg.generation := by
  have h : reg'.presented.cache = reg.presented.cache := by rw [h.presented]
  exact h

theorem Like.enabled (h : reg.Like reg') : reg'.cache.enabled = reg.cache.enabled := by
  simpa using congrArg PlanCache.enabled h.cache

theorem Like.withFactories (h : reg.Like reg') (t : Slot (Table DefinitionId)) :
    { reg with factories := t }.Like { reg' with factories := t } where
  presented := congrArg (fun reg : Registry => { reg with factories := t }) h.presented
  left := { h.left with }
  right := { h.right with }
  same hcounts := by rw [h.same hcounts]

theorem Like.withTraits (h : reg.Like reg') (t : Slot (Table DefinitionId)) :
    { reg with traits := t }.Like { reg' with traits := t } where
  presented := congrArg (fun reg : Registry => { reg with traits := t }) h.presented
  left := { h.left with }
  right := { h.right with }
  same hcounts := by rw [h.same hcounts]

omit [Scrutiny] in
theorem Secluded.touch (h : reg.Secluded) : reg.touch.Secluded :=
  { h with past := Int.le_of_lt (Int.lt_add_one_of_le h.past) }

omit [Scrutiny] in
/-- After a change nothing that was cached counts. -/
theorem presented_touch (h : reg.Secluded) : reg.touch.presented =
    { reg.presented with cache := reg.presented.cache.clear } := by
  have hold : reg.cache.generation < reg.touch.generation := Int.lt_add_one_of_le h.past
  have hcache : reg.cache.presented reg.touch.generation =
      (reg.cache.presented reg.generation).clear := by
    rw [PlanCache.presented_old hold, PlanCache.presented]
    split <;> rfl
  exact congrArg (fun c : PlanCache => { reg with generation := 0, cache := c }) hcache

theorem Like.touch (h : reg.Like reg') : reg.touch.Like reg'.touch where
  presented := by rw [presented_touch h.left, presented_touch h.right, h.presented]
  left := h.left.touch
  right := h.right.touch
  same hcounts := by rw [h.same hcounts]

/-- Registries stay alike when both caches come to present the same. -/
theorem Like.withCache (h : reg.Like reg') {c c' : PlanCache}
    (hsame : c'.presented reg'.generation = c.presented reg.generation)
    (hleft : { reg with cache := c }.Secluded) (hright : { reg' with cache := c' }.Secluded)
    (hcache : reg' = reg → c' = c) :
    { reg with cache := c }.Like { reg' with cache := c' } where
  presented := by
    have hrest : { reg'.presented with cache := c'.presented reg'.generation } =
        { reg.presented with cache := c.presented reg.generation } := by rw [h.presented, hsame]
    exact hrest
  left := hleft
  right := hright
  same hcounts := by
    have hreg := h.same hcounts
    rw [hcache hreg, hreg]

theorem Like.switched (h : reg.Like reg') (enabled : Bool) (flag : Value) :
    { reg with cache := { reg.cache with enabled := enabled, flag := flag } }.Like
      { reg' with cache := { reg'.cache with enabled := enabled, flag := flag } } := by
  have hswitched :=
    congrArg (fun c : PlanCache => { c with enabled := enabled, flag := flag }) h.cache
  refine h.withCache ?_ { h.left with } { h.right with } fun hreg => by rw [hreg]
  exact (PlanCache.presented_switched _ _ _ _).trans
    (hswitched.trans (PlanCache.presented_switched _ _ _ _).symm)

theorem Like.cleared (h : reg.Like reg') :
    { reg with cache := reg.cache.clear }.Like { reg' with cache := reg'.cache.clear } := by
  refine h.withCache ?_ { h.left with } { h.right with } fun hreg => by rw [hreg]
  rw [PlanCache.presented_clear, PlanCache.presented_clear, h.cache]

end Registry

/-! ## 2. Worlds -/

/-- **Worlds that are alike**: their registries are, and all else is the same, the log included if
it matters. -/
structure World.Alike [Scrutiny] (w w' : World) : Prop where
  rest : w' = w.withMargin ⟨w'.registries, w'.log⟩
  log : Scrutiny.log → w'.log = w.log
  size : w'.registries.size = w.registries.size
  like : ∀ r reg reg', w.registryAt? r = some reg → w'.registryAt? r = some reg' → reg.Like reg'

namespace World

variable {w w' : World}

/-- Worlds whose registries keep their caches to themselves are like themselves. -/
theorem Alike.refl (h : ∀ r reg, w.registryAt? r = some reg → reg.Secluded) : w.Alike w :=
  ⟨rfl, fun _ => rfl, rfl, fun r _ _ hreg hreg' =>
    Option.some.inj (hreg.symm.trans hreg') ▸ .refl (h r _ hreg)⟩

theorem Alike.secluded (h : w.Alike w') (r : RegistryId) (reg : Registry)
    (hreg : w.registryAt? r = some reg) : reg.Secluded := by
  obtain ⟨hlt, _⟩ := Array.getElem?_eq_some_iff.mp hreg
  exact (h.like r reg _ hreg (Array.getElem?_eq_getElem (h.size ▸ hlt))).left

/-- A registry is in both of two alike worlds, or in none of them. -/
theorem Alike.registryAt? (h : w.Alike w') (r : RegistryId) :
    (w.registryAt? r = none ∧ w'.registryAt? r = none) ∨
      ∃ reg reg', w.registryAt? r = some reg ∧ w'.registryAt? r = some reg' ∧ reg.Like reg' := by
  by_cases hlt : r.index < w.registries.size
  · have hreg : w.registryAt? r = some _ := Array.getElem?_eq_getElem hlt
    have hreg' : w'.registryAt? r = some _ := Array.getElem?_eq_getElem (h.size ▸ hlt)
    exact .inr ⟨_, _, hreg, hreg', h.like r _ _ hreg hreg'⟩
  · exact .inl ⟨Array.getElem?_eq_none (Nat.le_of_not_lt hlt),
      Array.getElem?_eq_none (h.size ▸ Nat.le_of_not_lt hlt)⟩

/-- What has nothing to do with the margin may change in both worlds. -/
theorem Alike.change (h : w.Alike w') {f : World → World}
    (hsame : ∀ w m, f (w.withMargin m) = (f w).withMargin m) :
    (f w).Alike (f w') := by
  have hown : ∀ w, f w = (f w).withMargin ⟨w.registries, w.log⟩ := fun w =>
    hsame w ⟨w.registries, w.log⟩
  have hregs : ∀ w, (f w).registries = w.registries := fun w => by
    rw [hown]
    rfl
  have hlog : ∀ w, (f w).log = w.log := fun w => by
    rw [hown]
    rfl
  have hat : ∀ w r, (f w).registryAt? r = w.registryAt? r := fun w r => by
    rw [World.registryAt?, World.registryAt?, hregs]
  refine ⟨?_, fun hcounts => ?_, ?_, fun r reg reg' hreg hreg' => ?_⟩
  · rw [hregs, hlog, ← hsame, ← h.rest]
  · rw [hlog, hlog, h.log hcounts]
  · rw [hregs, hregs, h.size]
  · rw [hat] at hreg hreg'
    exact h.like r reg reg' hreg hreg'

omit [Scrutiny] in
/-- What registries there are when one of them has changed. -/
theorem registryAt?_of_modifyRegistry (w : World) (r q : RegistryId) (f : Registry → Registry) :
    (w.modifyRegistry r f).registryAt? q =
      if q = r then (w.registryAt? q).map f else w.registryAt? q := by
  have hiff : r.index = q.index ↔ q = r := by
    cases q
    cases r
    simp [eq_comm]
  have hat : (w.modifyRegistry r f).registryAt? q =
      if r.index = q.index then (w.registryAt? q).map f else w.registryAt? q := Array.getElem?_modify
  rw [hat]
  simp only [hiff]

/-- So may one registry. -/
theorem Alike.modifyRegistry (h : w.Alike w') (r : RegistryId) {f f' : Registry → Registry}
    (hf : ∀ reg reg', w.registryAt? r = some reg → w'.registryAt? r = some reg' →
      reg.Like reg' → (f reg).Like (f' reg')) :
    (w.modifyRegistry r f).Alike (w'.modifyRegistry r f') := by
  refine ⟨?_, h.log, ?_, fun q reg reg' hreg hreg' => ?_⟩
  · show (w'.modifyRegistry r f') =
      w.withMargin ⟨(w'.modifyRegistry r f').registries, (w'.modifyRegistry r f').log⟩
    have hrest := h.rest
    generalize w'.registries = registries, w'.log = log at hrest
    subst hrest
    rfl
  · show (w'.registries.modify _ _).size = (w.registries.modify _ _).size
    rw [Array.size_modify, Array.size_modify, h.size]
  · rw [registryAt?_of_modifyRegistry] at hreg hreg'
    by_cases hq : q = r
    · subst hq
      rw [if_pos rfl, Option.map_eq_some_iff] at hreg hreg'
      obtain ⟨x, hx, rfl⟩ := hreg
      obtain ⟨x', hx', rfl⟩ := hreg'
      exact hf x x' hx hx' (h.like q x x' hx hx')
    · rw [if_neg hq] at hreg hreg'
      exact h.like q reg reg' hreg hreg'

/-- The same may be logged in both worlds. -/
theorem Alike.logged (h : w.Alike w') (entry : LogEntry) :
    { w with log := w.log.push entry }.Alike { w' with log := w'.log.push entry } where
  rest := by
    have hrest := h.rest
    generalize w'.registries = registries, w'.log = log at hrest
    subst hrest
    rfl
  log hlog := by rw [h.log hlog]
  size := h.size
  like := h.like

end World

/-! ## 3. Doing the same in alike worlds -/

namespace Action

variable {α β : Type} {Q : α → Prop} {R : β → Prop} {w w' : World}

/-- **What comes of one thing in alike worlds**: the same failure, or the same result, which has a
property; and the worlds after it are alike. -/
inductive Agree (Q : α → Prop) : Except Failure α × World → Except Failure α × World → Prop
  | ok {x : α} (hx : Q x) {w w' : World} (h : w.Alike w') : Agree Q (.ok x, w) (.ok x, w')
  | error (e : Failure) {w w' : World} (h : w.Alike w') : Agree Q (.error e, w) (.error e, w')

/-- **An action that does the same in alike worlds**, and whose results have a property. -/
def UniformWith (Q : α → Prop) (a : Action α) : Prop :=
  ∀ w w', w.Alike w' → Agree Q (a.execute w) (a.execute w')

/-- **An action that does the same in alike worlds.** -/
abbrev Uniform (a : Action α) : Prop := UniformWith (fun _ => True) a

theorem Agree.outcome {s s' : Except Failure α × World} (h : Agree Q s s') : s'.1 = s.1 := by
  cases h <;> rfl

theorem Agree.alike {s s' : Except Failure α × World} (h : Agree Q s s') : s.2.Alike s'.2 := by
  cases h <;> assumption

theorem agree_of {s s' : Except Failure α × World} (houtcome : s'.1 = s.1)
    (halike : s.2.Alike s'.2) : Agree (fun _ => True) s s' := by
  obtain ⟨x, w⟩ := s
  obtain ⟨x', w'⟩ := s'
  obtain rfl : x' = x := houtcome
  cases x' with
  | error e => exact .error e halike
  | ok x => exact .ok trivial halike

theorem Agree.imp {P : α → Prop} {s s' : Except Failure α × World} (h : Agree Q s s')
    (hQ : ∀ x, Q x → P x) : Agree P s s' := by
  cases h with
  | ok hx h => exact .ok (hQ _ hx) h
  | error e h => exact .error e h

theorem UniformWith.imp {P : α → Prop} {a : Action α} (h : UniformWith Q a)
    (hQ : ∀ x, Q x → P x) : UniformWith P a := fun w w' hw => (h w w' hw).imp hQ

theorem UniformWith.uniform {a : Action α} (h : UniformWith Q a) : Uniform a :=
  h.imp fun _ _ => trivial

theorem uniformWith_pure {x : α} (h : Q x) : UniformWith Q (pure x : Action α) :=
  fun _ _ hw => .ok h hw

theorem uniform_pure (x : α) : Uniform (pure x : Action α) := uniformWith_pure trivial

theorem uniformWith_throw (e : Failure) : UniformWith Q (throw e : Action α) :=
  fun _ _ hw => .error e hw

theorem uniformWith_fail (c : Cause) : UniformWith Q (fail c : Action α) := uniformWith_throw _

theorem uniformWith_wrongType : UniformWith Q (wrongType : Action α) := uniformWith_fail _

theorem uniformWith_noAttribute : UniformWith Q (noAttribute : Action α) := uniformWith_fail _

/-- What agrees so far, and goes on in alike worlds, agrees. -/
theorem agree_bind {a a' : Action β} {f f' : β → Action α} {w w' : World}
    (ha : Agree R (a.execute w) (a'.execute w'))
    (hf : ∀ x w₁ w₁', R x → a.execute w = (.ok x, w₁) → a'.execute w' = (.ok x, w₁') →
      w₁.Alike w₁' → Agree Q ((f x).execute w₁) ((f' x).execute w₁')) :
    Agree Q ((a >>= f).execute w) ((a' >>= f').execute w') := by
  rw [execute_bind, execute_bind]
  generalize hs : a.execute w = s, hs' : a'.execute w' = s' at ha
  cases ha with
  | ok hx h => exact hf _ _ _ hx hs hs' h
  | error e h => exact .error e h

/-- What fails before it goes on, agrees however it would go on. -/
theorem agree_fail_bind (hw : w.Alike w') (c : Cause) (f f' : β → Action α) :
    Agree Q (((fail c : Action β) >>= f).execute w) (((fail c : Action β) >>= f').execute w') :=
  .error _ hw

theorem uniformWith_bind {a : Action β} {f : β → Action α} (ha : UniformWith R a)
    (hf : ∀ x, R x → UniformWith Q (f x)) : UniformWith Q (a >>= f) :=
  fun w w' hw => agree_bind (ha w w' hw) fun x w₁ w₁' hx _ _ h => hf x hx w₁ w₁' h

theorem uniform_bind {a : Action β} {f : β → Action α} (ha : Uniform a)
    (hf : ∀ x, UniformWith Q (f x)) : UniformWith Q (a >>= f) :=
  uniformWith_bind ha fun x _ => hf x

theorem uniform_map {a : Action β} (f : β → α) (ha : Uniform a) : Uniform (f <$> a) := by
  rw [← bind_pure_comp]
  exact uniform_bind ha fun x => uniform_pure _

/-- What is read may tell one world from the other, if what is done with it does not. -/
theorem uniformWith_get_bind {f : World → Action α}
    (h : ∀ w w', w.Alike w' → Agree Q ((f w).execute w) ((f w').execute w')) :
    UniformWith Q (get >>= f) := h

theorem uniformWith_get {f : World → Action α}
    (hsame : ∀ w m, f (w.withMargin m) = f w) (hf : ∀ w, UniformWith Q (f w)) :
    UniformWith Q (get >>= f) := by
  intro w w' h
  have hf' : f w' = f w := by
    rw [h.rest, hsame]
  rw [execute_bind_ok (execute_get w), execute_bind_ok (execute_get w'), hf']
  exact hf w w w' h

theorem uniform_modify {f : World → World}
    (hsame : ∀ w m, f (w.withMargin m) = (f w).withMargin m) :
    Uniform (modify f : Action PUnit) := fun _ _ h => .ok trivial (h.change hsame)

/-- What does the same whatever stands at the margin, is uniform. -/
theorem uniform_of_same {a : Action α} (h : ∀ w m, a.execute (w.withMargin m) =
    ((a.execute w).1, (a.execute w).2.withMargin m)) : Uniform a := by
  intro w w' hw
  have hafter := hw.change (f := fun w => (a.execute w).2) fun w m => by rw [h]
  exact agree_of (by rw [hw.rest, h]) hafter

theorem ApartWith.uniform {a : Action α} (h : ApartWith Q a) : UniformWith Q a := by
  intro w w' hw
  have hresult := (h w).2.1
  have ha := uniform_of_same h.withMargin w w' hw
  generalize a.execute w = s, a.execute w' = s' at hresult ha
  cases ha with
  | ok _ h => exact .ok (hresult _ rfl) h
  | error e h => exact .error e h

/-- What is refused under a condition and gone on with otherwise. -/
theorem uniformWith_refusing {p : Prop} [Decidable p] {refuse : Action PUnit} {rest : Action α}
    (hrefuse : Uniform refuse) (hrest : UniformWith Q rest) :
    UniformWith Q (if p then refuse >>= fun _ => rest else rest) := by
  split
  · exact uniform_bind hrefuse fun _ => hrest
  · exact hrest

theorem uniformWith_liftExcept {x : Except Failure α} (h : ∀ y, x = .ok y → Q y) :
    UniformWith Q (liftExcept x) := by
  cases x with
  | ok x => exact uniformWith_pure (h x rfl)
  | error e => exact uniformWith_throw e

theorem uniform_liftExcept (x : Except Failure α) : Uniform (liftExcept x) :=
  uniformWith_liftExcept fun _ _ => trivial

theorem uniform_ofCause (x : Except Cause α) : Uniform (ofCause x) := by
  cases x with
  | ok x => exact uniform_pure x
  | error c => exact uniformWith_fail c

theorem uniformWith_mapM {f : β → Action α} {xs : List β} (h : ∀ x ∈ xs, UniformWith Q (f x)) :
    UniformWith (fun ys => ∀ y ∈ ys, Q y) (xs.mapM f) := by
  induction xs with
  | nil => exact uniformWith_pure fun _ hy => absurd hy List.not_mem_nil
  | cons x xs ih =>
    rw [List.mapM_cons]
    refine uniformWith_bind (h x List.mem_cons_self) fun y hy => uniformWith_bind
      (ih fun z hz => h z (List.mem_cons_of_mem _ hz)) fun ys hys => uniformWith_pure ?_
    exact List.forall_mem_cons.mpr ⟨hy, hys⟩

theorem uniform_mapM {f : β → Action α} (xs : List β) (h : ∀ x, Uniform (f x)) :
    Uniform (xs.mapM f) := (uniformWith_mapM fun x _ => h x).uniform

theorem uniform_forM {f : β → Action Unit} (xs : List β) (h : ∀ x, Uniform (f x)) :
    Uniform (xs.forM f) := by
  induction xs with
  | nil => exact uniform_pure ()
  | cons x xs ih => exact uniform_bind (h x) fun _ => ih

theorem uniform_foldlM {f : α → β → Action α} (xs : List β) (h : ∀ s x, Uniform (f s x)) (s : α) :
    Uniform (xs.foldlM f s) := by
  induction xs generalizing s with
  | nil => exact uniform_pure s
  | cons x xs ih => exact uniform_bind (h s x) ih

theorem uniformWith_tryCatch {a : Action α} {handle : Failure → Action α} (ha : UniformWith Q a)
    (hh : ∀ e, UniformWith Q (handle e)) : UniformWith Q (tryCatch a handle) := by
  intro w w' hw
  have h := ha w w' hw
  rw [execute_tryCatch, execute_tryCatch]
  generalize a.execute w = s, a.execute w' = s' at h
  cases h with
  | ok hx h => exact .ok hx h
  | error e h => exact hh e _ _ h

theorem uniformWith_attempt {a : Action α} (ha : UniformWith Q a) :
    UniformWith (fun x => ∀ y, x = .ok y → Q y) (attempt a) := by
  intro w w' hw
  have h := ha w w' hw
  rw [execute_attempt, execute_attempt]
  generalize a.execute w = s, a.execute w' = s' at h
  cases h with
  | ok hx h => exact .ok (fun y hy => Except.ok.inj hy ▸ hx) h
  | error e h => exact .ok (fun _ h => by cases h) h

theorem uniform_attempt {a : Action α} (ha : Uniform a) : Uniform (attempt a) :=
  (uniformWith_attempt ha).uniform

theorem uniformWith_noting {a : Action α} (note : String) (ha : UniformWith Q a) :
    UniformWith Q (noting note a) := uniformWith_tryCatch ha fun _ => uniformWith_throw _

/-! ## 4. Reading and changing registries -/

omit [Scrutiny] in
theorem registry_of_execute (r : RegistryId) (w : World) : (getRegistry r).execute w =
    match w.registryAt? r with
    | some reg => (.ok reg, w)
    | none => (.error (Failure.raise (.wrongType none)), w) := by
  rw [getRegistry, execute_bind_ok (execute_get w)]
  cases w.registryAt? r <;> rfl

/-- **A registry is read** for what like ones have in common. -/
theorem uniformWith_getRegistry (r : RegistryId) {f : Registry → Action α}
    (hsame : ∀ reg reg', reg.Like reg' → f reg' = f reg)
    (hf : ∀ reg, reg.Secluded → UniformWith Q (f reg)) : UniformWith Q (getRegistry r >>= f) := by
  intro w w' hw
  rcases hw.registryAt? r with ⟨hreg, hreg'⟩ | ⟨reg, reg', hreg, hreg', hlike⟩
  · rw [execute_bind, execute_bind, registry_of_execute, registry_of_execute, hreg, hreg']
    exact .error _ hw
  · rw [execute_bind, execute_bind, registry_of_execute, registry_of_execute, hreg, hreg']
    dsimp only
    rw [hsame reg reg' hlike]
    exact hf reg hlike.left w w' hw

theorem uniform_modifyRegistry (r : RegistryId) {f : Registry → Registry}
    (hf : ∀ reg reg', reg.Like reg' → (f reg).Like (f reg')) : Uniform (modifyRegistry r f) :=
  fun _ _ hw => .ok trivial (hw.modifyRegistry r fun _ _ _ _ h => hf _ _ h)

theorem uniform_touch (r : RegistryId) : Uniform (touch r) :=
  uniform_modifyRegistry r fun _ _ h => h.touch

omit [Scrutiny] in
/-- A new registry keeps its cache to itself. -/
theorem secluded_new : ({} : Registry).Secluded := ⟨Int.le_refl 0, rfl, rfl, rfl, rfl⟩

theorem uniform_newRegistry : Uniform newRegistry := by
  intro w w' hw
  have hnext : (newRegistry.execute w').1 = (newRegistry.execute w).1 := by
    show Except.ok (RegistryId.mk w'.registries.size) = .ok ⟨w.registries.size⟩
    rw [hw.size]
  have hat : ∀ (w : World) (r : RegistryId), (newRegistry.execute w).2.registryAt? r =
      if r.index = w.registries.size then some {} else w.registryAt? r := fun w r =>
    Array.getElem?_push
  have hafter : (newRegistry.execute w).2.Alike (newRegistry.execute w').2 := by
    refine ⟨?_, hw.log, ?_, fun r reg reg' hreg hreg' => ?_⟩
    · show { w' with registries := w'.registries.push {} } =
        w.withMargin ⟨w'.registries.push {}, w'.log⟩
      have hrest := hw.rest
      generalize w'.registries = registries, w'.log = log at hrest
      subst hrest
      rfl
    · show (w'.registries.push {}).size = (w.registries.push {}).size
      rw [Array.size_push, Array.size_push, hw.size]
    · rw [hat] at hreg hreg'
      rw [hw.size] at hreg'
      split at hreg
      · rename_i hnew
        rw [if_pos hnew] at hreg'
        cases hreg
        cases hreg'
        exact .refl secluded_new
      · rename_i hold
        rw [if_neg hold] at hreg'
        exact hw.like r reg reg' hreg hreg'
  exact agree_of hnext hafter

end Action

end TraitFactory
