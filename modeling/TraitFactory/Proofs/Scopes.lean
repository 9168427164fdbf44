import TraitFactory.Proofs.Generations
import TraitFactory.Proofs.Spelling

/-!
# Scopes

A trait is looked up from a scope and registered in one, and a scope is given in four ways: as
nothing, as the text that is reserved for the global scope, as a factory, or as a factory's name.
Whatever is given, the scope is settled before anything is looked up or registered, so two scopes
that are settled alike are alike to all that follows. A name and the factory that is registered
under it are settled alike, unless the name is the reserved text: then there is no telling it from
nothing.
-/

namespace TraitFactory

open Action

/-! ## 1. Everything that can be done with a registry -/

variable {r : RegistryId} {w₀ w w' : World} {reg : Registry}

/-- **A public step, whatever comes of it**: something may be compiled whatever its parents are,
and applying traits may fail when it is half done. -/
inductive AnyStep (r : RegistryId) : World → World → Prop
  | free {w w' : World} (h : FreeStep r w w') : AnyStep r w w'
  | halted {w w' : World} {c : Command} (h : w.HalfApplied r c w') : AnyStep r w w'

/-- A run of public steps, whatever comes of them. -/
def AnyRun (r : RegistryId) : World → World → Prop := Relation.ReflTransGen (AnyStep r)

/-- What is left of half a command is a registry like others: definitions keep their names. -/
theorem World.HalfApplied.dated {c : Command} (h : w.HalfApplied r c w') (hd : w.Dated r reg) :
    w'.Dated r reg := by
  obtain @⟨_, _, _, _, _, names, d, _, _, _, _, _, _, _, _, _, hsame⟩ := h
  have hkept : w.Kept r (w.applying d names) :=
    World.kept_modifyDefinition d (fun _ hx => hx.apply names) fun _ => rfl
  obtain ⟨reg', hn, _, _⟩ := hkept.neat reg hd.neat
  have hreg : reg' = reg := Option.some.inj (hn.registry.symm.trans hd.neat.registry)
  exact ⟨(hreg ▸ hn).undisturbed hsame, hd.past⟩

theorem dated_anyRun (h : w₀.Dated r reg) (hrun : AnyRun r w₀ w) : ∃ reg', w.Dated r reg' := by
  induction hrun with
  | refl => exact ⟨reg, h⟩
  | tail _ hs ih =>
    obtain ⟨reg₁, h₁⟩ := ih
    cases hs with
    | free hs => exact dated_freeStep h₁ hs
    | halted hs => exact ⟨reg₁, hs.dated h₁⟩

namespace Action

/-! ## 2. Settling a scope -/

variable {f : DefinitionId} {x : Definition} {scope scope' : Value}

/-- A factory is its own scope, registered or not. -/
theorem execute_scopeFactory_factory (hx : w.definitions.get? f = some x)
    (hfactory : x.isFactory = true) :
    (scopeFactory r (.definition f)).execute w = (.ok (some f), w) := by
  rw [scopeFactory, if_neg (by simp [Value.asText?]), execute_bind_ok (execute_getDefinition hx), if_pos hfactory]
  rfl

/-- **A name is settled as the factory that is registered under it**, in any of its spellings. -/
theorem execute_scopeFactory_name (hn : w.Neat r reg) {name : String}
    (hf : reg.factory? name = some f) (hname : scope.name? = some name)
    (hfree : scope.asText? ≠ some "global") :
    (scopeFactory r scope).execute w = (.ok (some f), w) := by
  obtain ⟨table, htable, hget⟩ := hn.plain.factories_eq
  have hnull : scope ≠ .null := by
    rintro rfl
    cases hname
  have hread : (factoryName scope).execute w = (.ok name, w) := by
    rw [factoryName, nameOr, hname]
    rfl
  have hvalue : (findFactoryValue r scope).execute w = (.ok (.definition f), w) := by
    rw [findFactoryValue, execute_bind_ok hread, execute_bind_ok (execute_getRegistry hn.registry),
      htable, execute_bind_ok (execute_definedUnder? table name w), ← hget, hf]
    rfl
  have hfind : (some <$> findFactory r scope).execute w = (.ok (some f), w) := by
    rw [← bind_pure_comp, findFactory, bind_assoc, execute_bind_ok hvalue]
    rfl
  rw [scopeFactory, if_neg (by simp [hnull, hfree])]
  · exact hfind
  · -- A definition has no name, so it is not what was given.
    rintro d rfl
    cases hname

/-- The reserved text is nothing to go by. -/
theorem scopeFactory_reserved (r : RegistryId) (hreserved : scope.asText? = some "global") :
    scopeFactory r scope = scopeFactory r .null := by
  unfold scopeFactory
  rw [if_pos (by simp [hreserved]), if_pos (by simp)]

/-! ## 3. Scopes that are settled alike -/

/-- What reads a name first and then settles a scope depends on the scope as it is settled. -/
theorem execute_scoped {α : Type} {named : Action String} (hnamed : Keeps .same named)
    (h : (scopeFactory r scope).execute w = (scopeFactory r scope').execute w)
    (next : String → Option DefinitionId → Action α) :
    (do let name ← named; let site ← scopeFactory r scope; next name site : Action α).execute w =
      (do let name ← named; let site ← scopeFactory r scope'; next name site).execute w := by
  have hsame := hnamed w
  rw [execute_bind, execute_bind]
  rcases hread : named.execute w with ⟨_ | name, w₁⟩
  · rfl
  · rw [hread] at hsame
    obtain rfl : w₁ = w := hsame
    simp only [execute_bind, h]

/-- **Scopes that are settled alike are one scope** to look traits up from and to register them
in. -/
theorem settled_alike (h : (scopeFactory r scope).execute w = (scopeFactory r scope').execute w)
    (trait : Value) (d : DefinitionId) :
    (resolveTraitValue r scope trait).execute w = (resolveTraitValue r scope' trait).execute w ∧
      (registerTrait r scope trait d).execute w = (registerTrait r scope' trait d).execute w :=
  ⟨execute_scoped (keeps_nameOr _ _) h _, execute_scoped (keeps_nameOr _ _) h _⟩

/-- **A scope that is given by name is the factory of that name.** Whatever was done with a registry
before, a trait that is looked up from the name of a registered factory, in any spelling, is looked
up from the factory, and a trait that is registered under the name is registered with the factory:
the same comes of it, and every table is the same afterwards. Only the text that is reserved for the
global scope is no such name, even where a factory is called so: it means the global scope. -/
theorem scope_by_name (hstart : w₀.Neat r {}) (hrun : AnyRun r w₀ w) (hf : w.Registered r f)
    (hx : w.definitions.get? f = some x) (hfactory : x.isFactory = true)
    (hscope : scope.name? = some x.name) (trait : Value) (d : DefinitionId) :
    (scope.asText? ≠ some "global" →
      (resolveTraitValue r scope trait).execute w =
          (resolveTraitValue r (.definition f) trait).execute w ∧
        (registerTrait r scope trait d).execute w =
          (registerTrait r (.definition f) trait d).execute w) ∧
    (scope.asText? = some "global" →
      (resolveTraitValue r scope trait).execute w =
          (resolveTraitValue r .null trait).execute w ∧
        (registerTrait r scope trait d).execute w = (registerTrait r .null trait d).execute w) := by
  obtain ⟨reg, h⟩ := dated_anyRun (World.tracked_new hstart).toDated hrun
  obtain ⟨name, hkey⟩ := hf
  have hkey : reg.factory? name = some f := h.neat.factory?_eq name ▸ hkey
  -- A factory is registered under the name that it has.
  obtain ⟨y, hy, hown⟩ := h.neat.names name f hkey
  obtain rfl := Option.some.inj (hy.symm.trans hx)
  refine ⟨fun hfree => settled_alike ?_ trait d, fun hreserved => settled_alike ?_ trait d⟩
  · rw [execute_scopeFactory_name h.neat hkey (hown ▸ hscope) hfree,
      execute_scopeFactory_factory hx hfactory]
  · rw [scopeFactory_reserved r hreserved]

/-- From the child's name as from the child itself, the parent's own trait is found. -/
theorem scope_by_name_family :
    World.family.Registered ⟨0⟩ ⟨2⟩ ∧
    (resolveTraitValue ⟨0⟩ (.text "child") (.text "v")).execute World.family =
      (resolveTraitValue ⟨0⟩ (.definition ⟨2⟩) (.text "v")).execute World.family ∧
    ((resolveTraitValue ⟨0⟩ (.text "child") (.text "v")).execute World.family).1 =
      .ok (.definition ⟨1⟩) := by
  have hregistered : World.family.Registered ⟨0⟩ ⟨2⟩ := ⟨"child", by decide +kernel⟩
  have hrun : AnyRun ⟨0⟩ World.fresh World.family :=
    World.run_family.free.lift id fun _ _ hs => .free hs
  obtain ⟨x, hx, hfound⟩ : ∃ x, World.family.definitions.get? ⟨2⟩ = some x ∧
      (x.isFactory = true ∧ x.name = "child") := by
    refine ⟨_, rfl, ?_⟩
    decide +kernel
  have hscope : (Value.text "child").name? = some x.name := congrArg some hfound.2.symm
  have h := scope_by_name World.neat_fresh hrun hregistered hx hfound.1 hscope (.text "v") ⟨1⟩
  exact ⟨hregistered, (h.1 (by decide)).1, by decide +kernel⟩

/-! ## 4. A factory with the reserved name -/

/-- A factory that is called like the global scope, and has a trait of its own. -/
def reserved : World :=
  (World.fresh.after (.defineFactory (some (.registry ⟨0⟩)) (.text "global") .null .null none)).after
    (.localTrait (.builder ⟨0⟩) (.text "v"))

/-- **The name of a factory that does not mean it.** The factory is registered under the reserved
text. From the factory its trait is found, and from its name it is not. -/
theorem reserved_name_lost : AnyRun ⟨0⟩ World.fresh reserved ∧ reserved.Registered ⟨0⟩ ⟨0⟩ ∧
    (reserved.definitions.get? ⟨0⟩).map (fun x => (x.isFactory, x.name)) = some (true, "global") ∧
    ((resolveTraitValue ⟨0⟩ (.definition ⟨0⟩) (.text "v")).execute reserved).1 =
      .ok (.definition ⟨1⟩) ∧
    ((resolveTraitValue ⟨0⟩ (.text "global") (.text "v")).execute reserved).1 =
      .error (Failure.traitNotFound "v" none none) := by
  refine ⟨?_, ⟨"global", by decide +kernel⟩, by decide +kernel, by decide +kernel,
    by decide +kernel⟩
  have hrun : Run ⟨0⟩ World.fresh reserved :=
    World.run_after (World.run_after .refl (.defineFactory (by rfl) _ _ _ _))
      (.localTrait (World.builds_of_builder (by decide +kernel)) _)
  exact hrun.free.lift id fun _ _ hs => .free hs

end Action

end TraitFactory
