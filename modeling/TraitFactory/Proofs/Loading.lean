import TraitFactory.Proofs.Developing
import TraitFactory.Proofs.Printing
import TraitFactory.Proofs.Respelling

/-!
# What modules that declare leave behind

A step of a module that declares, compiles or looks something up makes new values for what it is
given, and performs one command. It does nothing else to the world, whatever it is given and whether
it succeeds. So declarations and compilations have led to what such modules leave behind, and nothing
that was listed is lost.
-/

namespace TraitFactory

open Action

/-- The frame of what steps that forget nothing lead to. -/
def Frame.gained : Frame := ⟨World.Gained, fun _ => .refl, Relation.ReflTransGen.trans⟩

instance : Frame.gained.Lenient where
  heap w h hsize := .single (.beside (Frame.Lenient.heap (F := .retained) w h hsize))
  made w made := .single (.beside (Frame.Lenient.made (F := .retained) w made))
  log w log := .single (.beside (Frame.Lenient.log (F := .retained) w log))

/-! ## 1. Commands -/

namespace Action

variable {α : Type}

theorem gains_of_retained {a : Action α} (h : Keeps .retained a) : Keeps .gained a :=
  fun w => .single (.beside (h w))

/-- What is only done to the session declares nothing. -/
theorem gains_modifySession (f : Session → Session) :
    Keeps .gained (modify fun w => w.modifySession f : Action PUnit) :=
  gains_of_retained (keeps_modify fun _ => World.retained_of_eq rfl (Nat.le_refl _) rfl rfl)

theorem gains_declaration {c : Command} (hc : c.declares) (hkeeps : c.forgets = false)
    (hrefers : ∀ w, c.Refers w) (host : Host) : Keeps .gained (performCommand host c) :=
  fun w => .single (.declared hc hkeeps (hrefers w) host)

theorem gains_compile (r : RegistryId) (factory : Value) (traits : Option Value) :
    Keeps .gained (compile r factory traits) :=
  fun _ => .single (.compiled r factory traits)

theorem gains_runnerArgument (runner : Option Value) : Keeps .gained (runnerArgument runner) := by
  unfold runnerArgument
  split
  · exact keeps_pure _
  · exact keeps_noAttribute
  · -- The cache of the session's registry may be switched when its runner is first used.
    refine keeps_bind keeps_get fun w => ?_
    dsimp only
    split
    · exact keeps_bind (keeps_registryOf _) fun r => keeps_bind (keeps_cacheSetting _) fun flag =>
        keeps_bind (gains_of_retained (keeps_setCache r flag)) fun _ =>
        keeps_bind (gains_modifySession _) fun _ => keeps_pure _
    · exact keeps_pure _

theorem keeps_resolveTraitValue {F : Frame} (r : RegistryId) (scope ref : Value) :
    Keeps F (resolveTraitValue r scope ref) := by
  refine keeps_bind (keeps_nameOr _ ref) fun _ => keeps_bind (keeps_scopeFactory r scope) fun _ =>
    keeps_bind keeps_get fun w => keeps_bind (keeps_getRegistry r) fun _ =>
    keeps_bind (keeps_liftExcept _) fun found => ?_
  cases found with
  | some d => exact keeps_pure d
  | none => exact keeps_throw _

end Action

namespace Script

/-- **Whether an operation declares, compiles or looks something up**, whatever it is given. -/
def Operation.develops : Operation → Bool
  | .defineFactory | .defineTrait | .childFactory | .localTrait | .set | .associate | .apply
  | .initializeWith | .toCreate | .callback | .registerFactory | .declare | .applyTrait
  | .addCallback | .touch | .newRegistry | .invalidate | .setCache | .compile | .resolveTrait
  | .factory | .definition | .generation | .makeFunction => true
  | _ => false

theorem gains_operation {op : Operation} (h : op.develops) {a : Arguments} {c : Command}
    (hc : op.command? a = some c) (host : Host) : Keeps .gained (performCommand host c) := by
  cases op with
  | callback =>
    dsimp only [Operation.command?] at hc
    split at hc <;> cases hc <;> exact gains_declaration rfl rfl (fun _ => by trivial) host
  | compile =>
    dsimp only [Operation.command?] at hc
    split at hc <;> cases hc
    · exact keeps_bind (gains_runnerArgument _) fun r => keeps_bind (keeps_registryOf r) fun r =>
        keeps_bind (gains_compile r _ _) fun _ => keeps_pure _
    · exact keeps_bind (keeps_registryArgument _) fun r =>
        keeps_bind (gains_compile r _ _) fun _ => keeps_pure _
  | resolveTrait =>
    cases hc
    exact keeps_bind (keeps_registryArgument _) fun r => keeps_resolveTraitValue r _ _
  | factory =>
    cases hc
    exact keeps_bind (keeps_registryArgument _) fun r => keeps_findFactoryValue r _
  | definition =>
    cases hc
    exact keeps_bind (keeps_definitionOf _) fun _ => keeps_pure _
  | generation =>
    cases hc
    exact keeps_bind (keeps_registryArgument _) fun r => keeps_bind (keeps_getRegistry r) fun _ =>
      keeps_pure _
  | makeFunction => cases hc
  | defineFactory | defineTrait | childFactory | localTrait | set | associate | apply
  | initializeWith | toCreate | registerFactory | declare | applyTrait | addCallback | touch
  | newRegistry | invalidate | setCache =>
    cases hc
    exact gains_declaration rfl rfl (fun _ => by trivial) host
  | _ => cases h

end Script

/-! ## 2. Programs -/

/-- **A program that develops the world** in which it runs: whatever it asks for and whatever the
answers, each request is met by steps that forget nothing. -/
inductive Program.Develops : Program → Prop
  | done (v : Value) : Develops (.done v)
  | fail (e : Failure) : Develops (.fail e)
  | ask {r : Request} {k : Except Failure Value → Program}
      (hr : ∀ host, Keeps .gained (answer host r)) (hk : ∀ x, Develops (k x)) : Develops (.ask r k)
  | define {head : FunctionHead} {body : List Value → Program} {k : Value → Program}
      (hk : ∀ v, Develops (k v)) : Develops (.define head body k)

namespace Program.Develops

variable {p : Program} {r : Request} {f k : Value → Program}

theorem bind (h : p.Develops) (hf : ∀ v, (f v).Develops) : (p.bind f).Develops := by
  induction h with
  | done v => exact hf v
  | fail e => exact .fail e
  | ask hr _ ih => exact .ask hr ih
  | define _ ih => exact .define ih

theorem raise (c : Cause) : (Program.raise c).Develops := .fail _

theorem request (hr : ∀ host, Keeps .gained (answer host r)) (hk : ∀ v, (k v).Develops) :
    (Program.request r k).Develops := by
  refine .ask hr fun x => ?_
  cases x with
  | ok v => exact hk v
  | error e => exact .fail e

/-- **A program that asks for nothing but such steps takes nothing but such steps.** -/
theorem gains_run (h : p.Develops) (host : Host) : Keeps .gained (p.run host) := by
  induction h with
  | done v => exact keeps_pure v
  | fail e => exact keeps_throw e
  | ask hr _ ih => exact keeps_bind (keeps_attempt (hr host)) ih
  | @define head body k _ ih =>
    have hfunction : ∀ f, Keeps .gained (newFunction f) := fun f => gains_of_retained fun w =>
      World.retained_of_eq rfl (Nat.le_refl _) rfl rfl
    refine keeps_bind (?_ : Keeps .gained (makeFunction head body)) ih
    unfold makeFunction
    split
    · exact keeps_bind (keeps_alloc _) fun _ => hfunction _
    · exact keeps_bind (keeps_pure _) fun _ => hfunction _

end Program.Develops

/-! ## 3. What steps are given -/

namespace Action

theorem keeps_newDict {F : Frame} [F.Roomy] (entries : List (Value × Value)) :
    Keeps F (newDict entries) := by
  refine keeps_bind ?_ fun _ => keeps_alloc _
  generalize ([] : List (Value × Value)) = before
  induction entries generalizing before with
  | nil => exact keeps_pure _
  | cons e entries ih =>
    rw [List.foldlM_cons]
    exact keeps_bind (keeps_bind (keeps_requireKey _) fun _ => keeps_bind keeps_get fun _ =>
      keeps_pure _) ih

end Action

namespace Script

open Program

theorem develops_newDict {es : List (Value × Value)} {k : Value → Program}
    (hk : ∀ v, (k v).Develops) : (request (.newDict es) k).Develops :=
  .request (fun _ => keeps_newDict es) hk

theorem develops_variable (name : String) : (request (.variable name) .done).Develops := by
  refine .request (fun host => ?_) .done
  refine keeps_bind keeps_get fun w => ?_
  split
  · exact keeps_pure _
  · exact keeps_fail _

mutual

/-- **Making a value declares nothing**, whatever value it is. -/
theorem Literal.develops : ∀ l : Literal, l.eval.Develops
  | .null => .done _
  | .bool _ => .done _
  | .int _ => .done _
  | .unreadable _ => .raise _
  | .float x => .request (fun _ => keeps_newFloat x) .done
  | .text _ => .done _
  | .bytes _ => .done _
  | .list items => by
    rw [Literal.eval]
    exact develops_literals items fun vs => .request (fun _ => keeps_alloc _) .done
  | .tuple items => by
    rw [Literal.eval]
    exact develops_literals items fun vs => .request (fun _ => keeps_alloc _) .done
  | .dict entries => by
    rw [Literal.eval]
    exact develops_entries entries fun es => develops_newDict .done
  | .symbol payload => by
    rw [Literal.eval]
    exact payload.develops.bind fun v =>
      .request (fun _ => keeps_bind keeps_newSerial fun _ => keeps_pure _) .done
  | .textSymbol s => .request (fun _ => keeps_bind keeps_newSerial fun _ => keeps_pure _) .done
  | .sealed label copyable => .request (fun _ => keeps_alloc _) .done
  | .model _ => .done _
  | .function f => by
    rw [Literal.eval]
    exact f.develops
  | .computed f => by
    rw [Literal.eval]
    exact f.develops.bind fun v =>
      .request (fun _ => keeps_bind (keeps_makeComputed v) fun _ => keeps_alloc _) .done
  | .association factory traits strategy overrides => by
    rw [Literal.eval]
    exact factory.develops.bind fun factory =>
      develops_optional traits fun traits => develops_optional strategy fun strategy =>
        develops_entries overrides fun es => develops_newDict fun overrides =>
          .request (fun _ => keeps_bind (keeps_makeAssociation _ _ _ _) fun _ => keeps_alloc _)
            .done
  | .fixed value shared => by
    rw [Literal.eval]
    exact value.develops.bind fun v => .request (fun _ => keeps_alloc _) .done
  | .sharedList key => by
    rw [Literal.eval]
    refine .request (fun _ => keeps_bind keeps_get fun w => ?_) .done
    split
    · exact keeps_pure _
    · exact keeps_bind (keeps_alloc _) fun v => keeps_bind (gains_modifySession _) fun _ =>
        keeps_pure _
  | .variable name => develops_variable name

theorem develops_literals : ∀ (ls : List Literal) {k : List Value → Program},
    (∀ vs, (k vs).Develops) → (evalLiterals ls k).Develops
  | [], _, hk => hk []
  | l :: ls, _, hk => by
    rw [evalLiterals]
    exact l.develops.bind fun v => develops_literals ls fun vs => hk (v :: vs)

theorem develops_optional : ∀ (l : Option Literal) {k : Option Value → Program},
    (∀ v, (k v).Develops) → (evalOptional l k).Develops
  | none, _, hk => hk none
  | some l, _, hk => by
    rw [evalOptional]
    exact l.develops.bind fun v => hk (some v)

theorem develops_entries : ∀ (es : List (Literal × Literal)) {k : List (Value × Value) → Program},
    (∀ vs, (k vs).Develops) → (evalEntries es k).Develops
  | [], _, hk => hk []
  | (key, value) :: es, _, hk => by
    rw [evalEntries]
    exact key.develops.bind fun x => value.develops.bind fun y =>
      develops_entries es fun vs => hk ((x, y) :: vs)

theorem FunctionSource.develops : ∀ f : FunctionSource, f.eval.Develops
  | .written _ _ => by
    rw [FunctionSource.eval]
    exact .define .done
  | .value v => by
    rw [FunctionSource.eval]
    exact v.develops

end

theorem Operand.develops (o : Operand) : o.eval.Develops := by
  cases o with
  | «variable» name =>
    rw [Operand.eval]
    exact develops_variable name
  | literal v =>
    rw [Operand.eval]
    exact v.develops
  | event v =>
    rw [Operand.eval]
    exact v.develops.bind fun v =>
      .request (fun _ => keeps_bind (keeps_eventOf v) fun _ => keeps_pure _) .done
  | function f =>
    rw [Operand.eval]
    exact f.develops
  | declared v =>
    rw [Operand.eval]
    refine v.develops.bind fun v => .request (fun host => ?_) .done
    cases v with
    | builder b => exact keeps_bind (keeps_getBuilder b) fun _ => keeps_pure _
    | _ => exact keeps_pure _
  | entries es =>
    rw [Operand.eval]
    exact develops_entries es fun _ => develops_newDict .done

theorem develops_operands (os : List (String × Operand)) {k : Arguments → Program}
    (hk : ∀ a, (k a).Develops) : (evalOperands os k).Develops := by
  induction os generalizing k with
  | nil =>
    rw [evalOperands]
    exact hk []
  | cons o os ih =>
    obtain ⟨name, o⟩ := o
    rw [evalOperands]
    exact o.develops.bind fun v => ih fun vs => hk ((name, v) :: vs)

theorem develops_keep (keptAs : Option String) (v : Value) : (keep keptAs v).Develops := by
  unfold keep
  split
  · refine .request (fun host => ?_) .done
    exact keeps_bind (gains_modifySession _) fun _ => keeps_pure _
  · exact .done v

/-! ## 4. Steps and modules -/

/-- **A step that develops the world**: it performs an operation that does, or a group of such
steps. -/
inductive Step.Develops : Step → Prop
  | operation {op : Operation} {operands : List (String × Operand)} {lacks : List String}
      {body : Expr} {steps : List Step} {keptAs : Option String} (h : op.develops) :
      Develops (.make op operands lacks body steps keptAs)
  | group {operands : List (String × Operand)} {lacks : List String} {body : Expr}
      {steps : List Step} {keptAs : Option String} (h : ∀ s ∈ steps, Develops s) :
      Develops (.make .group operands lacks body steps keptAs)

theorem develops_steps {steps : List Step} (h : ∀ s ∈ steps, s.eval.Develops) :
    (evalSteps steps).Develops := by
  induction steps with
  | nil =>
    rw [evalSteps]
    exact .done _
  | cons s steps ih =>
    obtain ⟨hs, hsteps⟩ := List.forall_mem_cons.mp h
    rw [evalSteps]
    exact hs.bind fun _ => ih hsteps

theorem Step.Develops.eval {s : Step} (h : s.Develops) : s.eval.Develops := by
  induction h with
  | @operation op operands lacks body steps keptAs h =>
    rw [Step.eval]
    refine (develops_operands operands fun a => ?_).bind (develops_keep keptAs)
    split
    · exact .raise _
    · split
      · cases h
      · exact .done _
      · cases h
      · split
        · rename_i c hc
          exact .request (fun host => gains_operation h hc host) fun _ => .done _
        · exact .done _
  | @group operands lacks body steps keptAs h ih =>
    rw [Step.eval]
    refine (develops_operands operands fun a => ?_).bind (develops_keep keptAs)
    split
    · exact .raise _
    · dsimp only
      unfold requireBuilder
      split
      · exact develops_steps ih
      · exact .raise _

end Script

/-- **A module that declares.** -/
def Module.Develops (m : Module) : Prop := ∀ s, some s ∈ m.steps → s.Develops

namespace Action

variable {modules : List Module}

theorem gains_performAll {steps : List (Option Script.Step)}
    (h : ∀ s, some s ∈ steps → s.Develops) : Keeps .gained (performAll steps) := by
  induction steps with
  | nil => exact keeps_pure _
  | cons s steps ih =>
    cases s with
    | none => exact keeps_wrongType
    | some s =>
      exact keeps_bind ((h s List.mem_cons_self).eval.gains_run _) fun _ =>
        ih fun s hs => h s (List.mem_cons_of_mem _ hs)

theorem gains_loadOne (h : ∀ m ∈ modules, m.Develops) (loaded : List String) (name : String) :
    Keeps .gained (loadOne modules loaded name) := by
  unfold loadOne
  split
  · exact keeps_pure _
  · split
    · rename_i m hm
      exact keeps_bind (gains_performAll (h m (List.mem_of_find?_eq_some hm))) fun _ => keeps_pure _
    · exact keeps_fail _

theorem gains_loadModule (h : ∀ m ∈ modules, m.Develops) (loaded : List String) (name : String) :
    Keeps .gained (loadModule modules loaded name) := by
  unfold loadModule
  split
  · exact keeps_fail _
  · split
    · exact keeps_wrongType
    · split
      · exact keeps_bind (gains_loadOne h loaded _) fun _ => keeps_fail _
      · exact gains_loadOne h loaded name

end Action

/-! ## 5. Loading by name -/

/-- A module whose name has no dots, and whose loading comes to its end, is loaded by its name. -/
theorem Action.execute_loadModule {modules : List Module} {loaded loaded' : List String}
    {name : String} {w : World} (hname : name.isEmpty = false) (hdot : name.startsWith "." = false)
    (hsplit : name.splitOn "." = [name])
    (hloaded : ((loadOne modules loaded name).execute w).1.toOption = some loaded') :
    (loadModule modules loaded name).execute w =
      (.ok loaded', ((loadOne modules loaded name).execute w).2) := by
  have hname : ¬ name.isEmpty = true := Bool.eq_false_iff.mp hname
  have hdot : ¬ name.startsWith "." = true := Bool.eq_false_iff.mp hdot
  rw [loadModule, if_neg hname, if_neg hdot, hsplit]
  rcases hexec : (loadOne modules loaded name).execute w with ⟨e | names, w'⟩ <;>
    rw [hexec] at hloaded
  · cases hloaded
  · rw [Option.some.inj hloaded]

namespace CommandRun

variable {modules : List Module} {loaded loaded' names : List String} {name : String}
  {w w₁ : World}

theorem execute_loadAll_nil : (loadAll modules loaded []).execute w = (.ok (), w) := rfl

theorem execute_loadAll_cons (h : (loadModule modules loaded name).execute w = (.ok loaded', w₁)) :
    (loadAll modules loaded (name :: names)).execute w =
      (loadAll modules loaded' names).execute w₁ := by
  rw [loadAll, execute_bind_ok (execute_perform_ok h)]

/-- **What modules that declare leave behind** has come about by declarations and compilations. -/
theorem gained_loadAll (h : ∀ m ∈ modules, m.Develops) (names loaded : List String) (w : World) :
    w.Gained ((loadAll modules loaded names).execute w).2 := by
  induction names generalizing loaded w with
  | nil => exact .refl
  | cons name names ih =>
    have hmodule := gains_loadModule h loaded name w
    rcases hload : (loadModule modules loaded name).execute w with ⟨e | loaded', w₁⟩ <;>
      rw [hload] at hmodule
    · rw [loadAll, execute_bind_error (execute_perform_error hload)]
      exact hmodule
    · rw [execute_loadAll_cons hload]
      exact hmodule.trans (ih loaded' w₁)

end CommandRun

end TraitFactory
