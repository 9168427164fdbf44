import TraitFactory.Proofs.Building
import TraitFactory.Proofs.History

/-!
# Changes and generations

A declaration that succeeds raises the generation of its registry, and one that fails leaves every
definition and table as it was. There is one exception. Where several traits are applied at once
and one of the references is no name, the traits before it stay applied, and the generation stays
what it is; a plan that was cached before is handed out again.
-/

namespace TraitFactory

/-! ## 1. Traits that stay applied -/

namespace World

/-- A world in which a definition applies some more traits. -/
def applying (w : World) (d : DefinitionId) (names : List String) : World :=
  w.modifyDefinition d fun x => { x with appliedTraits := x.appliedTraits.modify (· ++ names) }

variable {w w' : World} {r : RegistryId} {d : DefinitionId} {x : Definition}

theorem applying_nil (w : World) (d : DefinitionId) : w.applying d [] = w := by
  have hnothing : ∀ x : Definition,
      ({ x with appliedTraits := x.appliedTraits.modify (· ++ []) } : Definition) = x := by
    intro x
    rcases h : x.appliedTraits with names | v <;> simp [Slot.modify, ← h]
  have hstore : w.definitions.modify d
      (fun x => { x with appliedTraits := x.appliedTraits.modify (· ++ []) }) = w.definitions :=
    (Definitions.modify_congr fun x _ => hnothing x).trans (Definitions.modify_id _ _)
  exact congrArg (fun ds => { w with definitions := ds }) hstore

theorem applying_applying (w : World) (d : DefinitionId) (names names' : List String) :
    (w.applying d names).applying d names' = w.applying d (names ++ names') := by
  have hboth : ∀ x : Definition, (x.appliedTraits.modify (· ++ names)).modify (· ++ names') =
      x.appliedTraits.modify (· ++ (names ++ names')) := by
    intro x
    cases x.appliedTraits <;> simp [Slot.modify]
  have hstore := Definitions.modify_modify w.definitions d
    (fun x => { x with appliedTraits := x.appliedTraits.modify (· ++ names) })
    (fun x => { x with appliedTraits := x.appliedTraits.modify (· ++ names') })
  simp only [hboth] at hstore
  exact congrArg (fun ds => { w with definitions := ds }) hstore

theorem get?_applying (hd : w.definitions.get? d = some x) (names : List String) :
    (w.applying d names).definitions.get? d =
      some { x with appliedTraits := x.appliedTraits.modify (· ++ names) } := by
  rw [applying, get?_modifyDefinition, if_pos rfl, hd]
  rfl

theorem plain_applying (hw : w.definitions.Plain) (d : DefinitionId) (names : List String) :
    (w.applying d names).definitions.Plain := by
  intro e y hy
  rw [applying, get?_modifyDefinition] at hy
  split at hy
  · obtain ⟨x, hx, rfl⟩ := Option.map_eq_some_iff.mp hy
    exact (hw e x hx).apply names
  · exact hw e y hy

theorem Undisturbed.applying (h : w.Undisturbed w') (d : DefinitionId) (names : List String) :
    (w.applying d names).Undisturbed (w'.applying d names) :=
  ⟨h.registries, congrArg (fun ds : Definitions => ds.modify d _) h.definitions, h.plans,
    h.builders, h.runners⟩

/-- **A command that fails when half of it is done**: of the traits that it applies, those before
the first reference that is no name are applied, and nothing else is changed. -/
inductive HalfApplied (w : World) (r : RegistryId) : Command → World → Prop
  | apply {on traits bad : Value} {good rest : List Value} {names : List String}
      {d : DefinitionId} {x : Definition} {w₁ w' : World} (hon : w.BuildsOn r d on)
      (hd : w.definitions.get? d = some x)
      (hrefs : (Action.elements traits).execute w = (.ok (good ++ bad :: rest), w₁))
      (hgood : List.Forall₂ (fun ref name => ref.name? = some name) good names)
      (hsome : good ≠ []) (hbad : bad.name? = none)
      (hsame : (w.applying d names).Undisturbed w') : HalfApplied w r (.apply on traits) w'

/-- What is left of half a command is a change that the registry has not been told of. -/
theorem HalfApplied.untold (hw : w.definitions.Plain) {c : Command} (h : w.HalfApplied r c w') :
    w'.registryAt? r = w.registryAt? r ∧ w'.definitions ≠ w.definitions := by
  obtain ⟨hon, hd, hrefs, hgood, hsome, hbad, hsame⟩ := h
  refine ⟨hsame.registryAt? r, fun heq => ?_⟩
  have hafter := get?_applying hd ‹_›
  rw [← hsame.definitions, heq, hd] at hafter
  obtain ⟨applied, happlied⟩ := (hw _ _ hd).appliedTraits
  have hnames := congrArg Definition.appliedTraits (Option.some.inj hafter)
  rw [happlied] at hnames
  -- At least one name has been added.
  obtain rfl := List.self_eq_append_right.mp (Slot.own.inj hnames)
  cases hgood
  exact hsome rfl

end World

/-! ## 2. Applying traits one after another -/

namespace Action

variable {w w' : World} {r : RegistryId} {reg : Registry} {d : DefinitionId} {x : Definition}
  {on ref : Value}

/-- Traits are applied one after another to what a builder builds. -/
def applyEach (on : Value) (refs : List Value) : Action Unit := do
  for ref in refs do applyTrait (← declaredOn on) ref

theorem applyEach_cons (on ref : Value) (refs : List Value) :
    applyEach on (ref :: refs) = (do
      let d ← declaredOn on
      applyTrait d ref
      applyEach on refs) := by
  simp only [applyEach, List.forIn_cons, bind_assoc, pure_bind]

theorem apply_eq (on traits : Value) : apply on traits = (do
    let _ ← declaredOn on
    let refs ← elements traits
    applyEach on refs
    touchFor on
    return on) := by
  simp only [apply, applyEach, bind_assoc, pure_bind]

theorem execute_applyTrait (hw : w.definitions.Plain) (hd : w.definitions.get? d = some x)
    {name : String} (hname : ref.name? = some name) :
    (applyTrait d ref).execute w = (.ok ⟨⟩, w.applying d [name]) := by
  obtain ⟨applied, happlied⟩ := (hw d x hd).appliedTraits
  have hread : (traitName ref).execute w = (.ok name, w) := by
    rw [traitName, nameOr, hname]
    rfl
  rw [applyTrait, execute_bind_ok (execute_getDefinition hd), happlied]
  exact execute_bind_ok hread

theorem applyTrait_fails (hw : w.definitions.Plain) (hd : w.definitions.get? d = some x)
    (hname : ref.name? = none) :
    ∃ e w', (applyTrait d ref).execute w = (.error e, w') ∧ w.Undisturbed w' := by
  obtain ⟨applied, happlied⟩ := (hw d x hd).appliedTraits
  have hu := (apart_traitName ref).keeps w
  rcases hread : (traitName ref).execute w with ⟨e | name, w'⟩
  · rw [hread] at hu
    refine ⟨e, w', ?_, hu⟩
    rw [applyTrait, execute_bind_ok (execute_getDefinition hd), happlied]
    exact execute_bind_error hread
  · cases hname.symm.trans (execute_nameOr hread).1

/-- **Of several traits those before the first reference that is no name are applied**, and all of
them when every reference is a name. -/
theorem execute_applyEach (hw : w.definitions.Plain) (hon : w.BuildsOn r d on)
    (hd : w.definitions.get? d = some x) (refs : List Value) :
    (∃ names, List.Forall₂ (fun ref name => ref.name? = some name) refs names ∧
      (applyEach on refs).execute w = (.ok ⟨⟩, w.applying d names)) ∨
    ∃ good bad rest names e w', refs = good ++ bad :: rest ∧
      List.Forall₂ (fun ref name => ref.name? = some name) good names ∧ bad.name? = none ∧
      (applyEach on refs).execute w = (.error e, w') ∧ (w.applying d names).Undisturbed w' := by
  induction refs generalizing w x with
  | nil => exact .inl ⟨[], .nil, by rw [w.applying_nil]; rfl⟩
  | cons ref refs ih =>
    rw [applyEach_cons, execute_bind_ok (execute_declaredOn hon)]
    rcases hname : ref.name? with _ | name
    · obtain ⟨e, w', hexec, hu⟩ := applyTrait_fails hw hd hname
      exact .inr ⟨[], ref, refs, [], e, w', rfl, .nil, hname, execute_bind_error hexec,
        by rwa [w.applying_nil]⟩
    · rw [execute_bind_ok (execute_applyTrait hw hd hname)]
      have hon' : (w.applying d [name]).BuildsOn r d on := hon.congr rfl
      -- The first name is added, and the others after it.
      have hrest := ih (World.plain_applying hw d [name]) hon' (World.get?_applying hd [name])
      obtain ⟨names, hnames, hexec⟩ |
        ⟨good, bad, rest, names, e, w', rfl, hgood, hbad, hexec, hu⟩ := hrest
      · exact .inl ⟨name :: names, .cons hname hnames, by rw [hexec, w.applying_applying]; rfl⟩
      · rw [w.applying_applying] at hu
        exact .inr ⟨ref :: good, bad, rest, name :: names, e, w', rfl, .cons hname hgood, hbad,
          hexec, hu⟩

/-- **Applying traits that fails** leaves everything as it was, or is half done. -/
theorem halfApplied_of_error (hn : w.Neat r reg) (hon : w.Builds r on) {traits : Value}
    {e : Failure} (h : (apply on traits).execute w = (.error e, w')) :
    w.Aside r w' ∨ w.HalfApplied r (.apply on traits) w' := by
  rw [apply_eq] at h
  have hu := keeps_declaredOn (F := .undisturbed) on w
  rcases hread : (declaredOn on).execute w with ⟨e₀ | d, w₀⟩ <;> rw [hread] at hu
  · rw [execute_bind_error hread] at h
    obtain rfl := (Prod.mk.inj h).2
    exact .inl (World.Undisturbed.aside hu)
  have hbuilds := buildsOn_of_execute hon hread
  rw [execute_bind_ok (execute_declaredOn hbuilds)] at h
  have hu := (apart_elements traits).keeps w
  rcases hrefs : (elements traits).execute w with ⟨e₁ | refs, w₁⟩ <;> rw [hrefs] at hu
  · rw [execute_bind_error hrefs] at h
    obtain rfl := (Prod.mk.inj h).2
    exact .inl (World.Undisturbed.aside hu)
  have hu : w.Undisturbed w₁ := hu
  rw [execute_bind_ok hrefs] at h
  have hbuilds₁ : w₁.BuildsOn r d on := hbuilds.congr hu.builders
  -- Once all traits have been applied nothing can fail.
  have htouch : ∀ w₂ : World, w₂.builders = w₁.builders →
      (applyEach on refs).execute w₁ = (.ok ⟨⟩, w₂) → False := by
    intro w₂ hb hexec
    rw [execute_bind_ok hexec, execute_bind_ok (execute_touchFor (hbuilds₁.congr hb).builds)] at h
    cases h
  rcases hd : w.definitions.get? d with _ | x
  · -- There is no definition, so the first reference fails, if there is one.
    cases refs with
    | nil => exact (htouch w₁ rfl rfl).elim
    | cons ref refs =>
      have hmissing : ∃ e', (getDefinition d).execute w₁ = (.error e', w₁) := by
        rw [getDefinition, execute_bind_ok (execute_get w₁), hu.definitions, hd]
        exact ⟨_, rfl⟩
      obtain ⟨e', hmissing⟩ := hmissing
      have hexec : (applyEach on (ref :: refs)).execute w₁ = (.error e', w₁) := by
        rw [applyEach_cons, execute_bind_ok (execute_declaredOn hbuilds₁)]
        exact execute_bind_error (execute_bind_error hmissing)
      rw [execute_bind_error hexec] at h
      obtain rfl := (Prod.mk.inj h).2
      exact .inl hu.aside
  · have hplain₁ : w₁.definitions.Plain := hu.definitions ▸ hn.definitions
    have hd₁ : w₁.definitions.get? d = some x := hu.definitions ▸ hd
    obtain ⟨names, _, hexec⟩ | ⟨good, bad, rest, names, e', w₂, rfl, hgood, hbad, hexec, hu₂⟩ :=
      execute_applyEach hplain₁ hbuilds₁ hd₁ refs
    · exact (htouch (w₁.applying d names) rfl hexec).elim
    · rw [execute_bind_error hexec] at h
      obtain rfl := (Prod.mk.inj h).2
      have hsame : (w.applying d names).Undisturbed w₂ :=
        Frame.undisturbed.trans (hu.applying d names) hu₂
      by_cases hsome : good = []
      · subst hsome
        cases hgood
        rw [w.applying_nil] at hsame
        exact .inl hsame.aside
      · exact .inr (.apply hbuilds hd hrefs hgood hsome hbad hsame)

/-! ## 3. What comes of declarations -/

/-- **Declarations and generations.** A declaration that succeeds raises the generation of its
registry. One that fails leaves every definition and table as it was, unless it applied several
traits and has been half done. Then definitions have changed, while the registry is what it was,
with its generation. In the other two cases a cache that was right is right. -/
theorem declarations_raise (hn : w.Neat r reg) {c : Command}
    (hc : Declares w r c ∨ ∃ on traits, c = .apply on traits ∧ w.Builds r on) (host : Host) :
    (∀ v w', (performCommand host c).execute w = (.ok v, w') → w.Changed r w') ∧
    (∀ e w', (performCommand host c).execute w = (.error e, w') →
      w.Aside r w' ∨ w.HalfApplied r c w') ∧
    (∀ w', w.HalfApplied r c w' →
      w'.registryAt? r = some reg ∧ w'.definitions ≠ w.definitions) ∧
    ∀ w', w.Aside r w' ∨ w.Changed r w' → w.Tracked r reg → ∃ reg', w'.Tracked r reg' := by
  refine ⟨fun v w' hexec => ?_, fun e w' hexec => ?_, fun w' hhalf => ?_, fun w' hw' h => ?_⟩
  · obtain hdeclares | ⟨on, traits, rfl, hon⟩ := hc
    · have hsettles := settles_command hn hdeclares host
      unfold Settles Leads at hsettles
      rwa [hexec] at hsettles
    · exact changed_apply hon hexec
  · obtain hdeclares | ⟨on, traits, rfl, hon⟩ := hc
    · have hsettles := settles_command hn hdeclares host
      unfold Settles Leads at hsettles
      rw [hexec] at hsettles
      exact .inl hsettles
    · exact halfApplied_of_error hn hon hexec
  · obtain ⟨hreg, hdefinitions⟩ := hhalf.untold hn.definitions
    exact ⟨hreg.trans hn.registry, hdefinitions⟩
  · have heffect : Effect False r reg w w' := hw'.elim .aside .changed
    obtain ⟨reg', h', _⟩ := heffect.tracked h False.elim
    exact ⟨reg', h'⟩

/-- A factory that has been compiled, a trait, and a list of two references of which only the
first is a name. -/
def halfway : World :=
  ((alloc (.list [.text "admin", .int 5])).execute
    ((((World.fresh.after
      (.defineFactory (some (.registry ⟨0⟩)) (.text "user") .null .null none)).after
      (.defineTrait (some (.registry ⟨0⟩)) (.text "admin"))).after
      (.set (.builder ⟨1⟩) (.text "admin") (some (.bool true)) .null)).after
      (.compile (some (.registry ⟨0⟩)) (.text "user") none))).2

theorem run_halfway : Run ⟨0⟩ World.fresh halfway := by
  refine Relation.ReflTransGen.tail ?_ (.steady (.aside ((apart_alloc _).keeps _).aside))
  refine Relation.ReflTransGen.tail ?_
    (.steady (.compiled (by rfl) (World.parentsKnown_of_all (by decide +kernel)) _ _ default))
  refine World.run_after ?_ (.set (World.builds_of_builder (by decide +kernel)) _ _ _)
  refine World.run_after ?_ (.defineTrait (by rfl) _)
  exact World.run_after .refl (.defineFactory (by rfl) _ _ _ _)

/-- One name is applied; a name and a number are applied by half. -/
theorem declarations_raise_halfway :
    halfway.Changed ⟨0⟩ (halfway.after (.apply (.builder ⟨0⟩) (.text "a"))) ∧
    halfway.HalfApplied ⟨0⟩ (.apply (.builder ⟨0⟩) (.object ⟨3⟩))
      (halfway.after (.apply (.builder ⟨0⟩) (.object ⟨3⟩))) := by
  obtain ⟨reg, h⟩ := tracked_run (World.tracked_new World.neat_fresh) run_halfway
  have hon : halfway.Builds ⟨0⟩ (.builder ⟨0⟩) := World.builds_of_builder (by decide +kernel)
  obtain ⟨hchanged, _⟩ := declarations_raise h.neat
    (.inr ⟨.builder ⟨0⟩, .text "a", rfl, hon⟩) default
  obtain ⟨_, hhalf, _⟩ := declarations_raise h.neat
    (.inr ⟨.builder ⟨0⟩, .object ⟨3⟩, rfl, hon⟩) default
  constructor
  · obtain ⟨v, hexec⟩ := World.exists_execute_after (w := halfway)
      (c := .apply (.builder ⟨0⟩) (.text "a")) (by decide +kernel)
    exact hchanged v _ hexec
  · obtain ⟨e, hexec⟩ := World.exists_error_after (w := halfway)
      (c := .apply (.builder ⟨0⟩) (.object ⟨3⟩)) (by decide +kernel)
    refine (hhalf e _ hexec).resolve_left fun haside => ?_
    -- The factory applies a trait that it did not apply before.
    have hbefore : (halfway.definitions.get? ⟨0⟩).map (·.applied) = some [] := by decide +kernel
    have hafter : ((halfway.after (.apply (.builder ⟨0⟩) (.object ⟨3⟩))).definitions.get? ⟨0⟩).map
        (·.applied) = some ["admin"] := by decide +kernel
    obtain ⟨x, hx, happlied⟩ := Option.map_eq_some_iff.mp hbefore
    rw [haside.grows.1.2 ⟨0⟩ x hx, Option.map_some, happlied] at hafter
    cases hafter

/-- **A plan that is stale.** Traits are applied to a factory that has been compiled, and the
second reference is no name. The factory applies the first trait from then on, and the generation
is what it was: so the old plan is handed out, without what the trait declares, until something
raises the generation. -/
theorem half_applied_stale : Run ⟨0⟩ World.fresh halfway ∧
    halfway.Builds ⟨0⟩ (.builder ⟨0⟩) ∧
    (let w' := halfway.after (.apply (.builder ⟨0⟩) (.object ⟨3⟩))
    (halfway.definitions.get? ⟨0⟩).map (·.applied) = some [] ∧
    (w'.definitions.get? ⟨0⟩).map (·.applied) = some ["admin"] ∧
    (w'.registryAt? ⟨0⟩).map (·.generation) = (halfway.registryAt? ⟨0⟩).map (·.generation) ∧
    foundIn ⟨0⟩ (.text "user") "admin" w' = none ∧
    foundIn ⟨0⟩ (.text "user") "admin" (w'.modifyRegistry ⟨0⟩ Registry.touch) =
      some (.fixed (.bool true) false)) :=
  ⟨run_halfway, World.builds_of_builder (by decide +kernel), by decide +kernel, by decide +kernel,
    by decide +kernel, by decide +kernel, by decide +kernel⟩

end Action

end TraitFactory
