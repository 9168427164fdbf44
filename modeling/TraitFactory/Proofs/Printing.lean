import TraitFactory.CommandLine.Transcript
import TraitFactory.Proofs.Assigning
import TraitFactory.Proofs.Consulting
import TraitFactory.Proofs.Course
import TraitFactory.Proofs.Recompiling
import TraitFactory.Proofs.Sharing

/-!
# What a command with assignments prints

A command that is given a text that is no assignment ends before anything is evaluated. All others
run the factory with the assigned values as overrides, and print what the run gives: all that the
compiled plan declares, in its order, and then what is newly assigned. What is assigned is what is
printed, as long as no function changes an assigned list or object and nothing meddles with
evaluation: the very values are handed over.
-/

namespace TraitFactory

open Action

/-! ## 1. Commands -/

theorem Halt.exit_ofFailure (e : Failure) : (Halt.ofFailure e).exit = 1 := by
  unfold ofFailure
  split <;> rfl

namespace CommandRun

variable {α β : Type} {w w₁ w' : World} {halt : Halt}

theorem execute_bind_ok {a : CommandRun α} {f : α → CommandRun β} {x : α}
    (h : a.execute w = (.ok x, w₁)) : (a >>= f).execute w = (f x).execute w₁ := by
  rw [execute, ExceptT.run_bind, StateT.run_bind, show StateT.run (ExceptT.run a) w = _ from h]
  rfl

theorem execute_bind_error {a : CommandRun α} {f : α → CommandRun β}
    (h : a.execute w = (.error halt, w₁)) : (a >>= f).execute w = (.error halt, w₁) := by
  rw [execute, ExceptT.run_bind, StateT.run_bind, show StateT.run (ExceptT.run a) w = _ from h]
  rfl

theorem execute_perform_ok {a : Action α} {x : α} {f : Failure → Halt}
    (h : a.execute w = (.ok x, w₁)) : (perform a f).execute w = (.ok x, w₁) := by
  show perform a f w = _
  rw [perform, h]

theorem execute_perform_error {a : Action α} {e : Failure} {f : Failure → Halt}
    (h : a.execute w = (.error e, w₁)) : (perform a f).execute w = (.error (f e), w₁) := by
  show perform a f w = _
  rw [perform, h]

/-- Prints as JSON what an action gives. -/
def printed (a : Action Value) : CommandRun CommandResult := do
  let v ← perform a
  let j ← orEscape ((← get).toJson v)
  return { output := j.indented ++ "\n" }

/-- All that prints is what the action gives, in the world that it leaves behind. -/
theorem execute_printed (a : Action Value) (w : World) : (printed a).execute w =
    match a.execute w with
    | (.ok v, w') =>
      match w'.toJson v with
      | .ok j => (.ok { output := j.indented ++ "\n" }, w')
      | .error c => (.error (.escaped (Failure.raise c)), w')
    | (.error e, w') => (.error (Halt.ofFailure e), w') := by
  rcases h : a.execute w with ⟨e | v, w'⟩
  · rw [printed, execute_bind_error (execute_perform_error h)]
  · have hget : (get : CommandRun World).execute w' = (.ok w', w') := rfl
    rw [printed, execute_bind_ok (execute_perform_ok h), execute_bind_ok hget]
    dsimp only
    rcases w'.toJson v with c | j <;> rfl

/-- What cannot be printed is no fault of how the command is written. -/
theorem exit_of_printed {a : Action Value} (h : (printed a).execute w = (.error halt, w')) :
    halt.exit = 1 := by
  rw [execute_printed] at h
  split at h
  · split at h <;> cases h
    rfl
  · cases h
    exact Halt.exit_ofFailure _

theorem ok_of_printed {a : Action Value} {result : CommandResult}
    (h : (printed a).execute w = (.ok result, w')) :
    ∃ v j, a.execute w = (.ok v, w') ∧ w'.toJson v = .ok j ∧
      result.output = j.indented ++ "\n" := by
  rw [execute_printed] at h
  split at h
  · rename_i v w₁ hexec
    split at h <;> cases h
    exact ⟨v, _, hexec, by assumption, rfl⟩
  · cases h

/-- **Texts are taken as assignments one after another**, until one of them is none. -/
theorem execute_assignments (w : World) {texts : List String}
    (h : ∀ s ∈ texts, Assignment.Legible s) :
    (∃ s ∈ texts, Assignment.Lacks s ∧
        (texts.mapM assignment).execute w = (.error (.usage (.notAnAssignment s)), w)) ∨
      (∀ s ∈ texts, ¬ Assignment.Lacks s) ∧ ∃ as, texts.mapM Assignment.ofText = .ok as ∧
        List.Forall₂ Assignment.Says texts as ∧
        (texts.mapM assignment).execute w = (.ok as, w) := by
  induction texts with
  | nil => exact .inr ⟨fun _ h => absurd h List.not_mem_nil, [], rfl, .nil, rfl⟩
  | cons s texts ih =>
    obtain ⟨hs, h⟩ := List.forall_mem_cons.mp h
    rw [List.mapM_cons]
    obtain ⟨hlacks, htext⟩ | ⟨hlacks, a, htext, ha⟩ := Assignment.ofText_cases hs
    · have hfirst : (assignment s).execute w = (.error (.usage (.notAnAssignment s)), w) := by
        rw [assignment, htext]
        rfl
      exact .inl ⟨s, List.mem_cons_self, hlacks, execute_bind_error hfirst⟩
    · have hfirst : (assignment s).execute w = (.ok a, w) := by
        rw [assignment, htext]
        rfl
      rw [execute_bind_ok hfirst]
      obtain ⟨s', hs', hlacks', hrest⟩ | ⟨hall, as, htexts, has, hrest⟩ := ih h
      · exact .inl ⟨s', List.mem_cons_of_mem _ hs', hlacks', execute_bind_error hrest⟩
      · refine .inr ⟨List.forall_mem_cons.mpr ⟨hlacks, hall⟩, a :: as, ?_, .cons ha has, ?_⟩
        · rw [List.mapM_cons, htext, htexts]
          rfl
        · rw [execute_bind_ok hrest]
          rfl

end CommandRun

/-! ## 2. How a run begins -/

namespace CommandRequest

/-- The run that a request asks for, with traits and overrides that are at hand. -/
def input (r : CommandRequest) (traits overrides : ObjectId) : RunInput where
  strategy := .text Strategy.attributesFor.name
  factory := .text r.factory
  traits := some (.object traits)
  overrides := .object overrides

/-- Makes what the run of a request with assignments is given. -/
def opening (r : CommandRequest) (as : List Assignment) : Action RunInput := do
  let named ← as.mapM fun a => return (a.key, ← ofJson a.value)
  let traits ← alloc (.tuple (r.traits.map .text))
  let overrides ← Parts.dict ((Table.ofList named).entries.map fun e => (.text e.1, e.2))
  return { strategy := .text Strategy.attributesFor.name
           factory := .text r.factory
           traits := some traits
           overrides := overrides }

/-- **What a request with assignments opens with**: its traits, and a dictionary that binds what is
assigned to values that have been made for this. Nothing else is changed. -/
structure Opens (r : CommandRequest) (as : List Assignment) (w : World) (traits overrides : ObjectId)
    (entries : List (Value × Value)) (w₁ : World) : Prop where
  opening : (r.opening as).execute w = (.ok (r.input traits overrides), w₁)
  furnished : w.Furnished w₁
  traits : w₁.heap.get? traits = some (.tuple (r.traits.map .text))
  overrides : w₁.heap.get? overrides = some (.dict entries)
  binds : Binds (w₁.madeSince w) as entries

/-- Values are made of all that is assigned. -/
theorem execute_values {w₀ w : World} (h : w₀.Furnished w) (as : List Assignment) :
    ∃ named w₁, (as.mapM fun a => return (a.key, ← ofJson a.value) :
        Action (List (String × Value))).execute w = (.ok named, w₁) ∧ w.Furnished w₁ ∧
      List.Forall₂ (fun a e => e.1 = a.key ∧ Depicts (w₁.madeSince w₀) a.value e.2) as named := by
  induction as generalizing w with
  | nil => exact ⟨[], w, rfl, .refl w, .nil⟩
  | cons a as ih =>
    obtain ⟨v, w₁, hv, hf, hdepicts⟩ := execute_ofJson h a.value
    obtain ⟨named, w₂, hnamed, hf', hall⟩ := ih (h.trans hf)
    refine ⟨(a.key, v) :: named, w₂, ?_, hf.trans hf',
      .cons ⟨rfl, hdepicts.mono fun _ _ => hf'.madeSince⟩ hall⟩
    rw [List.mapM_cons, bind_assoc, execute_bind_ok hv, pure_bind, execute_bind_ok hnamed]
    rfl

/-- **Every request opens with what is assigned.** -/
theorem exists_opens (r : CommandRequest) (as : List Assignment) (w : World) :
    ∃ traits overrides entries w₁, r.Opens as w traits overrides entries w₁ := by
  obtain ⟨named, w₁, hnamed, hf₁, hall⟩ := execute_values (.refl w) as
  obtain ⟨traits, w₂, htraits, hf₂, hmade⟩ := execute_alloc_new hf₁ (.tuple (r.traits.map .text))
  obtain ⟨overrides, w₃, hoverrides, hf₃, hmade'⟩ :=
    execute_alloc_new (hf₁.trans hf₂)
      (.dict ((Table.ofList named).entries.map fun e => (.text e.1, e.2)))
  have hbinds : Binds (w₃.madeSince w) as _ := binds_ofList (hall.imp fun a e h =>
    ⟨h.1, h.2.mono fun _ _ => (hf₂.trans hf₃).madeSince⟩)
  refine ⟨traits, overrides, _, w₃, ?_, hf₁.trans (hf₂.trans hf₃),
    hf₃.objects _ _ (World.get?_of_madeSince hmade), World.get?_of_madeSince hmade', hbinds⟩
  rw [opening, execute_bind_ok hnamed, execute_bind_ok htraits, Parts.dict,
    execute_bind_ok hoverrides]
  rfl

end CommandRequest

/-- **A run for attributes is a run of the session's runner**, with what its request opens with. -/
theorem CommandRun.execute_attributesOf {r : CommandRequest} {as : List Assignment} {w w₁ : World}
    {traits overrides : ObjectId} {entries : List (Value × Value)}
    (h : r.Opens as w traits overrides entries w₁) :
    (attributesOf r as).execute w =
      (Action.run Host.standard w₁.session.runner (r.input traits overrides)).execute w₁ := by
  have hparts : attributesOf r as = (do
      let input ← r.opening as
      Action.run Host.standard (← get).session.runner input) := by
    simp only [attributesOf, CommandRequest.opening, bind_assoc, pure_bind]
  rw [hparts, Action.execute_bind_ok h.opening, Action.execute_bind_ok (execute_get w₁)]

/-! ## 3. The names of a plan with overrides -/

/-- What is new among names follows those that are there. -/
theorem eraseDups_append_of_nodup {α : Type} [DecidableEq α] {xs : List α} (hxs : xs.Nodup)
    (ys : List α) : (xs ++ ys).eraseDups = xs ++ ys.eraseDups.filter (· ∉ xs) := by
  rw [List.eraseDups_append, eraseDups_of_nodup hxs, List.removeAll, filter_eraseDups]
  simp

/-- **Names of overrides that the plan does not have follow its own**, each where it is first given. -/
theorem Plan.names_withOverrides {plan : Plan} (hflat : plan.Flat) (ds : List Declaration)
    (constructor persistor : Option Value) :
    (plan.withOverrides ds constructor persistor).names =
      plan.names ++ (ds.map (·.name)).eraseDups.filter (· ∉ plan.names) := by
  obtain ⟨below, hbelow, hattributes⟩ := hflat
  have hnames : plan.names = below.names := by rw [Plan.names, hattributes, hbelow.map_name]
  have hkeyed := AttributeSet.keyed_mergeOver (AttributeSet.ofList ds) below.declarations
  have hnodup : plan.names.Nodup := hnames ▸ hbelow.2
  rw [← eraseDups_append_of_nodup hnodup, hnames, Plan.names, Plan.withOverrides, hattributes,
    hkeyed.map_name, AttributeSet.names_mergeOver _ hbelow (AttributeSet.keyed_ofList _),
    AttributeSet.names_ofList, eraseDups_append_eraseDups]

namespace Action

variable {w w' : World} {p q : PlanId} {plan plan' : Plan} {entries : List (Value × Value)}
  {constructor persistor : Option Value}

/-- The names of a plan that has been overridden. -/
theorem names_of_applyOverrides (hp : w.plan? p = some plan) (hflat : plan.Flat)
    (hheld : ∀ x ∈ entries, w.Holds x.2)
    (h : (applyOverrides p entries constructor persistor).execute w = (.ok q, w'))
    (hq : w'.plan? q = some plan') :
    plan'.names = plan.names ++ (entryNames entries).eraseDups.filter (· ∉ plan.names) := by
  by_cases hnothing : entries = [] ∧ constructor.bind Value.hook? = none ∧
      persistor.bind Value.hook? = none
  · obtain ⟨rfl, hconstructor, hpersistor⟩ := hnothing
    rw [applyOverrides, hconstructor, hpersistor] at h
    cases h
    cases hp.symm.trans hq
    simp [entryNames]
  · obtain ⟨hnames, hhooks⟩ := applicable_of_applyOverrides h
    obtain ⟨q', w₁, ds, hexec, hovers, hq', _⟩ :=
      execute_applyOverrides hp hnames hheld hhooks hnothing
    cases h.symm.trans hexec
    cases hq.symm.trans hq'
    rw [Plan.names_withOverrides hflat, names_of_overrides hovers]

end Action

/-! ## 4. Runs for attributes -/

namespace Recorded

variable {w w' : World} {ev : EvaluatorId} {p : PlanId} {overrides v : Value}
  {constructor persistor : Option Value} {entries : List (Value × Value)} {marks : List Mark}

/-- **A run for attributes yields a dictionary** of all that the plan with its overrides declares, in
its order; what is shared is in it itself, unless something meddles with evaluation. -/
theorem attributes_of_evaluate (customs : Customs) (n : Nat)
    {cause : Option (EvaluationId × Association)} (hentries : w.entries? overrides = some entries)
    (hrun : evaluate (.watched customs n) cause ev p (.text Strategy.attributesFor.name) overrides
      constructor persistor w = ((.ok v, w'), marks)) :
    ∃ q w₁ plan o, ∃ values : List (String × Value),
      (applyOverrides p entries constructor persistor).execute w = (.ok q, w₁) ∧
      w₁.plan? q = some plan ∧ v = .object o ∧
      w'.heap.get? o = some (.dict (values.map fun a => (.text a.1, a.2))) ∧
      values.map (·.1) = plan.names ∧
      (Mild marks → ∀ a ∈ values, ∀ u, w.Shares overrides plan a.1 u → a.2 = u) := by
  have hO := Observed.charted_watched customs n
  obtain ⟨⟨s, plan, e⟩, w₁, before, later, hprepare, hbegun, rfl⟩ := ok_of_bind hrun
  obtain ⟨_, w₂, told, after, htell, hlifecycle, rfl⟩ := ok_of_bind hbegun
  cases htell
  obtain ⟨hstrategy, q, w₃, happly, hplan⟩ := applied_of_prepare hentries hprepare
  cases hstrategy
  obtain ⟨E, hE, hfresh, rfl⟩ := stands_of_prepare hprepare
  obtain ⟨values, w₄, resolving, marks₁, hresolve, hgiven, rfl⟩ := ok_of_bind hlifecycle
  obtain ⟨attributes, w₅, _, _, hdict, hreturn, _⟩ := ok_of_bind hgiven
  rw [if_pos rfl] at hreturn
  cases hreturn
  cases hdict
  refine ⟨q, w₃, E.plan, _, values.entries, happly, hplan, rfl, Array.getElem?_push_size,
    keys_of_resolve hE hfresh hresolve, fun hmild a ha u hshares => ?_⟩
  have hresolving := (mild_append.mp (mild_append.mp (mild_append.mp hmild).2).2).1
  have hdelivers := follows_resolve (Observed.follows_watched .deliveries customs n) hE hfresh
  rw [Follows, hresolve] at hdelivers
  have hdelivers : w₁.Delivers resolving w₄ := hdelivers hresolving
  obtain ⟨t', hE', hkept⟩ := kept_of_resolve hO hfresh hE hresolve hresolving
  have hhands := hdelivers.standing e E ∅ t' [] hE hfresh E.plan.hands_nothing hE'
  obtain ⟨d, hd, hu⟩ := declared_of_shares hshares hprepare
  exact hhands a.1 d a.2 hd (hkept a ha).2 u hu

end Recorded

/-! ## 5. What is assigned and what is compiled -/

namespace Binds

variable {look look' : ObjectId → Option Object} {as : List Assignment}
  {entries : List (Value × Value)} {key : String} {value : Json}

theorem mono (h : Binds look as entries) (hlook : ∀ o x, look o = some x → look' o = some x) :
    Binds look' as entries where
  keys := h.keys
  depicts e he := by
    obtain ⟨key, value, hkey, hvalue, hdepicts⟩ := h.depicts e he
    exact ⟨key, value, hkey, hvalue, hdepicts.mono hlook⟩

/-- The names of the entries are the keys. -/
theorem names (h : Binds look as entries) : entryNames entries = (as.map (·.key)).eraseDups := by
  have hnames : entryNames entries = (entries.map (·.1)).filterMap Value.name? := by
    rw [List.filterMap_map]
    rfl
  rw [hnames, h.keys, List.filterMap_map]
  exact List.filterMap_some

/-- A key is bound once, so its entry is the one that counts. -/
theorem lastOverride? (h : Binds look as entries) {v : Value} (hv : (.text key, v) ∈ entries) :
    Action.lastOverride? entries key = some v := by
  have hnodup : (entries.map (·.1)).Nodup := by
    rw [h.keys]
    exact (nodup_eraseDups _).map fun _ _ heq => by cases heq; rfl
  obtain ⟨found, hfound⟩ := Option.isSome_iff_exists.mp
    (List.find?_isSome.mpr ⟨_, List.mem_reverse.mpr hv, decide_eq_true rfl⟩ :
      (entries.reverse.find? fun e => e.1.name? = some key).isSome)
  have hmem := List.mem_reverse.mp (List.mem_of_find?_eq_some hfound)
  obtain ⟨key', _, hkey', _, _⟩ := h.depicts found hmem
  have hname : found.1.name? = some key := by simpa using List.find?_some hfound
  rw [hkey'] at hname
  cases hname
  rw [Action.lastOverride?, hfound, List.inj_on_of_nodup_map hnodup hmem hv hkey']
  rfl

/-- What is bound is assigned. -/
theorem mem_keys (h : Binds look as entries) {v : Value} (hv : (.text key, v) ∈ entries) :
    key ∈ as.map (·.key) := by
  obtain ⟨key', value, hkey, hvalue, _⟩ := h.depicts _ hv
  cases hkey
  exact Assignment.mem_of_lastValue? hvalue

end Binds

namespace World

variable {w w₁ : World}

theorem Furnished.retained (h : w.Furnished w₁) : w.Retained w₁ := by
  refine retained_of_eq h.undisturbed.definitions ?_ h.undisturbed.plans h.undisturbed.registries
  by_contra hless
  have hlast : w.heap.get? ⟨w₁.heap.size⟩ = some _ :=
    Array.getElem?_eq_getElem (Nat.lt_of_not_le hless)
  exact Nat.lt_irrefl _ (Array.getElem?_eq_some_iff.mp (h.objects _ _ hlast)).1

end World

namespace Action

variable {w₀ w w' : World} {r : RunnerId} {factory : Value} {traits : ObjectId} {names : List Value}
  {p : PlanId}

/-- **A runner's compilation** gives a plan that is flat, and changes no object. -/
theorem plan_of_compile (hblank : w₀.Blank) (hrun : w₀.Advanced w)
    (htraits : w.heap.get? traits = some (.tuple names))
    (h : (do compile (← registryOf r) factory (some (.object traits)) : Action PlanId).execute w =
      (.ok p, w')) : ∃ plan, w'.plan? p = some plan ∧ plan.Flat ∧ w.Widened w' := by
  obtain ⟨registry, w₁, hregistry, hcompile⟩ := ok_of_execute_bind h
  have hsame : w₁ = w := by
    have hkept := keeps_registryOf (F := .same) r w
    rwa [hregistry] at hkept
  subst hsame
  obtain ⟨s, hs, hmade⟩ := stores_of_compile hblank hrun hcompile
  have hassembled : s.plan.Assembled := by
    obtain ⟨factory, model, traits, hp⟩ := hmade.assembled
    rw [Plan.Assembled, hp]
    rfl
  refine ⟨s.plan, congrArg (Option.map _) hs, hassembled.flat, ?_⟩
  rcases hreg : w₁.registryAt? registry with _ | reg
  · have hafter := execute_compile_of_none hreg factory (some (.object traits))
    rw [hcompile] at hafter
    exact hafter ▸ .refl w₁
  · have hitems : w₁.items? (.object traits) = some names := by
      rw [World.items?, Heap.object?, htraits]
    have hread : (elementsOf (some (.object traits))).execute w₁ = (.ok names, w₁) :=
      execute_elements_of_items? hitems
    have hafter := widened_compile ((hblank.ordinary.advanced hrun).neat hreg) factory hread
    rwa [hcompile] at hafter

end Action

namespace Recorded

variable {O : Observed} {r : RunnerId} {input : RunInput} {w w' : World} {v : Value}
  {marks : List Mark}

/-- A run compiles, and then evaluates what it has compiled. -/
theorem parts_of_run (h : run O r input w = ((.ok v, w'), marks)) :
    ∃ p w₁ ev told, (do compile (← registryOf r) input.factory input.traits :
        Action PlanId).execute w = (.ok p, w₁) ∧
      evaluate O none ev p input.strategy input.overrides input.constructor input.persistor w₁ =
        ((.ok v, w'), told) ∧ (Mild marks → Mild told) := by
  obtain ⟨p, w₁, _, after, hcompile, hruns, rfl⟩ := ok_of_bind h
  obtain ⟨ev, w₂, _, told, hev, hevaluate, rfl⟩ := ok_of_bind hruns
  have hev : (evaluatorOf r).execute w₁ = (.ok ev, w₂) := congrArg Prod.fst hev
  -- Which evaluator a runner has is only looked up.
  have hsame : w₂ = w₁ := by
    have hkept : Keeps .same (evaluatorOf r) :=
      keeps_bind (keeps_getRunner r) fun R => by
        split
        · exact keeps_pure _
        · exact keeps_noAttribute
    have hkept := hkept w₁
    rwa [hev] at hkept
  subst hsame
  exact ⟨p, w₂, ev, told, congrArg Prod.fst hcompile, hevaluate, fun hmild =>
    (mild_append.mp (mild_append.mp hmild).2).2⟩

end Recorded

/-! ## 6. What is printed -/

namespace CommandRun

/-- What JSON a run gives that opens with assignments: the names of the compiled plan and then those
that are new; and what is assigned, if that is what its value still depicts and the run was mild. -/
theorem fields_of_run {w₀ w w₁ w' : World} {r : CommandRequest} {as : List Assignment}
    {traits overrides : ObjectId} {entries : List (Value × Value)} {runner : RunnerId} {v : Value}
    {j : Json} (hblank : w₀.Blank) (hrun : w₀.Advanced w)
    (hopens : r.Opens as w traits overrides entries w₁)
    (hexec : (Action.run Host.standard runner (r.input traits overrides)).execute w₁ = (.ok v, w'))
    (hj : w'.toJson v = .ok j) :
    ∃ p w₂ plan fields,
      (do compile (← registryOf runner) (.text r.factory) (some (.object traits)) :
        Action PlanId).execute w₁ = (.ok p, w₂) ∧ w₂.plan? p = some plan ∧ j = .object fields ∧
      fields.map (·.1) = plan.names ++ (as.map (·.key)).eraseDups.filter (· ∉ plan.names) ∧
      (Mild (Recorded.run (.watched .ofPrograms Host.maxDepth) runner
          (r.input traits overrides) w₁).2 →
        ∀ key u value, (.text key, u) ∈ entries → Depicts w'.heap.get? value u →
          (Json.object fields).get? key = some value) := by
  have hrecords := Recorded.records_run (O := .watched .ofPrograms Host.maxDepth) (r := runner)
    (r.input traits overrides) w₁
  rw [Observed.host_watched, ← Host.ofDepth_eq_tower] at hrecords
  rcases hrecorded : Recorded.run (.watched .ofPrograms Host.maxDepth) runner
    (r.input traits overrides) w₁ with ⟨outcome, marks⟩
  rw [hrecorded] at hrecords
  obtain rfl : outcome = (.ok v, w') := hrecords.trans hexec
  obtain ⟨p, w₂, ev, told, hcompile, hevaluate, hmild⟩ := Recorded.parts_of_run hrecorded
  have hadvanced : w₀.Advanced w₁ := hrun.tail (.beside hopens.furnished.retained)
  obtain ⟨plan, hplan, hflat, hwidened⟩ := plan_of_compile hblank hadvanced hopens.traits hcompile
  -- What has been made for the assignments is still there when the evaluation begins.
  have hbinds := hopens.binds.mono fun o x hx => hwidened.objects o x (World.get?_of_madeSince hx)
  have hentries : w₂.entries? (.object overrides) = some entries := by
    rw [World.entries?, hwidened.objects _ _ hopens.overrides]
  have hheld : ∀ x ∈ entries, w₂.Holds x.2 := fun x hx => by
    obtain ⟨_, _, _, _, hdepicts⟩ := hbinds.depicts x hx
    exact hdepicts.holds
  obtain ⟨q, w₃, plan', o, values, happly, hq, rfl, ho, hnames, hshared⟩ :=
    Recorded.attributes_of_evaluate _ _ hentries hevaluate
  obtain ⟨fields, rfl, hkeys, hfields⟩ := World.fields_of_toJson ho hj
  have hall : fields.map (·.1) =
      plan.names ++ (as.map (·.key)).eraseDups.filter (· ∉ plan.names) := by
    rw [hkeys, hnames, names_of_applyOverrides hplan hflat hheld happly hq, hbinds.names,
      eraseDups_of_nodup (nodup_eraseDups _)]
  refine ⟨p, w₂, plan, fields, hcompile, hplan, rfl, hall, fun hmarks key u value hu hvalue => ?_⟩
  have hmem : key ∈ fields.map (·.1) := by
    have hassigned := List.mem_eraseDups.mpr (hbinds.mem_keys hu)
    rw [hall]
    by_cases hdeclared : key ∈ plan.names
    · exact List.mem_append_left _ hdeclared
    · exact List.mem_append_right _ (List.mem_filter.mpr ⟨hassigned, by simpa using hdeclared⟩)
  refine Json.get?_of_forall hmem fun f hf hkey => ?_
  obtain ⟨a, ha, hname, hprinted⟩ := hfields f hf
  obtain ⟨_, _, _, _, hdepicts⟩ := hbinds.depicts _ hu
  have hplain : w₂.Shares (.object overrides) plan' a.1 u :=
    .plain hentries hheld (by rw [← hname, hkey]; exact hbinds.lastOverride? hu) hdepicts.attribute?
  have hgiven : a.2 = u := hshared (hmild hmarks) a ha u hplain
  exact hprinted value (hgiven ▸ hvalue)

variable {modules : List Module} {r : CommandRequest}

/-- **What a command with assignments does.** Let modules be loaded after any declarations and
compilations, and let no text have an integer after its first equals sign that is too long to be
read.

The command exits with 2, before anything is evaluated, just if some text has no equals sign or
nothing before the first. Otherwise it runs the factory with the call's traits and with overrides that
bind every key, once and where it is assigned first, to what its last assignment says.

When the run succeeds, what is printed is an object that has the names of the compiled plan, in the
order of the plan, and then the keys that are new, in the order in which they are assigned first. If no
function of the run meddles with evaluation, what is printed, read again as the JSON that it was written
from, has at every key just what was assigned to it, as long as the value that was made of that is in the
end what it was. -/
theorem assignments_printed {blank w₀ w : World} (hblank : blank.Blank) (hrun : blank.Advanced w)
    (hload : (loadAll modules [] r.modules).execute w₀ = (.ok (), w))
    (hlegible : ∀ s ∈ r.assignments, Assignment.Legible s) :
    ((∃ halt w', (command modules .attributes r).execute w₀ = (.error halt, w') ∧ halt.exit = 2) ↔
      ∃ s ∈ r.assignments, Assignment.Lacks s) ∧
    ((∃ s ∈ r.assignments, Assignment.Lacks s) → ∃ s ∈ r.assignments, Assignment.Lacks s ∧
      (command modules .attributes r).execute w₀ = (.error (.usage (.notAnAssignment s)), w)) ∧
    ((∀ s ∈ r.assignments, ¬ Assignment.Lacks s) → ∃ as traits overrides entries w₁,
      r.assignments.mapM Assignment.ofText = .ok as ∧
      List.Forall₂ Assignment.Says r.assignments as ∧ r.Opens as w traits overrides entries w₁ ∧
      (command modules .attributes r).execute w₀ = (printed
        (Action.run Host.standard w₁.session.runner (r.input traits overrides))).execute w₁ ∧
      ∀ result w', (command modules .attributes r).execute w₀ = (.ok result, w') →
        ∃ p w₂ plan v fields,
          (do compile (← registryOf w₁.session.runner) (.text r.factory) (some (.object traits)) :
            Action PlanId).execute w₁ = (.ok p, w₂) ∧ w₂.plan? p = some plan ∧
          (Action.run Host.standard w₁.session.runner (r.input traits overrides)).execute w₁ =
            (.ok v, w') ∧ w'.toJson v = .ok (.object fields) ∧
          result.output = (Json.object fields).indented ++ "\n" ∧
          fields.map (·.1) = plan.names ++ (as.map (·.key)).eraseDups.filter (· ∉ plan.names) ∧
          (Mild (Recorded.run (.watched .ofPrograms Host.maxDepth) w₁.session.runner
              (r.input traits overrides) w₁).2 →
            Json.read result.output = .ok (.object fields) →
            ∀ key u value, (.text key, u) ∈ entries → Assignment.lastValue? as key = some value →
              Depicts w'.heap.get? value u →
              ∃ j, Json.read result.output = .ok j ∧ j.get? key = some value)) := by
  have hcommand : (command modules .attributes r).execute w₀ = (attributes r).execute w := by
    show (loadAll modules [] r.modules >>= fun _ => attributes r).execute w₀ = _
    rw [execute_bind_ok hload]
  have hparts : attributes r = r.assignments.mapM assignment >>= fun as =>
    printed (attributesOf r as) := rfl
  rw [hcommand, hparts]
  obtain ⟨s, hs, hlacks, hhalts⟩ | ⟨hall, as, htexts, has, hassigned⟩ :=
    execute_assignments w hlegible
  · -- The first text that is no assignment ends the command.
    rw [execute_bind_error hhalts]
    exact ⟨iff_of_true ⟨_, _, rfl, rfl⟩ ⟨s, hs, hlacks⟩, fun _ => ⟨s, hs, hlacks, rfl⟩,
      fun hall => absurd hlacks (hall s hs)⟩
  · have hnone : ¬ ∃ s ∈ r.assignments, Assignment.Lacks s :=
      fun ⟨s, hs, hlacks⟩ => hall s hs hlacks
    obtain ⟨traits, overrides, entries, w₁, hopens⟩ := r.exists_opens as w
    have hprinted : (printed (attributesOf r as)).execute w = (printed
        (Action.run Host.standard w₁.session.runner (r.input traits overrides))).execute w₁ := by
      rw [execute_printed, execute_printed, execute_attributesOf hopens]
    rw [execute_bind_ok hassigned, hprinted]
    refine ⟨iff_of_false ?_ hnone, fun hsome => absurd hsome hnone, fun _ =>
      ⟨as, traits, overrides, entries, w₁, htexts, has, hopens, rfl, fun result w' hresult => ?_⟩⟩
    · rintro ⟨halt, w', hhalts, hexit⟩
      rw [exit_of_printed hhalts] at hexit
      cases hexit
    · obtain ⟨v, j, hexec, hj, houtput⟩ := ok_of_printed hresult
      obtain ⟨p, w₂, plan, fields, hcompile, hplan, rfl, hnames, hvalues⟩ :=
        fields_of_run hblank hrun hopens hexec hj
      exact ⟨p, w₂, plan, v, fields, hcompile, hplan, hexec, hj, houtput, hnames,
        fun hmild hread key u value hu _ hvalue => ⟨_, hread, hvalues hmild key u value hu hvalue⟩⟩

end CommandRun

/-! ## 7. Keys assigned twice, and lists that are changed -/

namespace CommandRequest

/-- A request that assigns one key twice, and to another an equals sign. -/
def reassigning : CommandRequest :=
  { modules := [], factory := "f", traits := [], assignments := ["z==", "x=1", "x=[2, true]"] }

/-- What it assigns. -/
def reassigned : List Assignment :=
  [⟨"z", .text "="⟩, ⟨"x", .int 1⟩, ⟨"x", .list [.int 2, .bool true]⟩]

/-- What it opens with, and the world in which its run begins. -/
def reopened : Except Failure RunInput × World :=
  (reassigning.opening reassigned).execute World.overlaid

/-- What comes of its run. -/
def rerun : Except Failure Value × World :=
  (Action.run Host.standard reopened.2.session.runner (reassigning.input ⟨7⟩ ⟨8⟩)).execute
    reopened.2

/-- What is printed of it. -/
def reprinted : Json := .object [("x", .list [.int 2, .bool true]), ("z", .text "=")]

end CommandRequest

namespace CommandRun

open CommandRequest

/-- The value that is printed for the key is that of its last assignment. -/
theorem assignments_printed_reassigned : (∀ s ∈ reassigning.assignments, ¬ Assignment.Lacks s) ∧
    Mild (Recorded.run (.watched .ofPrograms Host.maxDepth) reopened.2.session.runner
      (reassigning.input ⟨7⟩ ⟨8⟩) reopened.2).2 ∧
    ∃ (result : CommandResult) (w' : World) (plan : Plan),
      (command [] .attributes reassigning).execute World.overlaid = (.ok result, w') ∧
      ["x", "z"] = plan.names ++ ["z", "x"].filter (· ∉ plan.names) ∧
      ∃ j, Json.read result.output = .ok j ∧ j.get? "x" = some (.list [.int 2, .bool true]) := by
  have hlegible : ∀ s ∈ reassigning.assignments, Assignment.Legible s := by decide +kernel
  have hall : ∀ s ∈ reassigning.assignments, ¬ Assignment.Lacks s := by decide +kernel
  have hmild : Mild (Recorded.run (.watched .ofPrograms Host.maxDepth) reopened.2.session.runner
      (reassigning.input ⟨7⟩ ⟨8⟩) reopened.2).2 := by decide +kernel
  have hopened : (reopened.1.map fun input => (input.traits, input.overrides)) =
      .ok (some (.object ⟨7⟩), .object ⟨8⟩) := by decide +kernel
  have hrun : rerun.1 = .ok (.object ⟨16⟩) := by decide +kernel
  have hjson : rerun.2.toJson (.object ⟨16⟩) = .ok reprinted := by decide +kernel
  have hread : Json.read (reprinted.indented ++ "\n") = .ok reprinted := by decide +kernel
  have hlist : rerun.2.heap.get? ⟨6⟩ = some (.list [.int 2, .bool true]) := by decide +kernel
  have hload : (loadAll [] [] reassigning.modules).execute World.overlaid =
      (.ok (), World.overlaid) := rfl
  obtain ⟨-, -, hassigned⟩ :=
    assignments_printed World.blank_fresh World.advanced_overlaid hload hlegible
  obtain ⟨as, traits, overrides, entries, w₁, htexts, -, hopens, hcommand, hresult⟩ :=
    hassigned hall
  obtain rfl : as = reassigned := by
    have htold : reassigning.assignments.mapM Assignment.ofText = .ok reassigned := by
      decide +kernel
    exact Except.ok.inj (htexts.symm.trans htold)
  have hopening : reopened = (.ok (reassigning.input traits overrides), w₁) := hopens.opening
  obtain rfl : reopened.2 = w₁ := congrArg Prod.snd hopening
  rw [hopening] at hopened
  cases hopened
  have hrerun : (Action.run Host.standard reopened.2.session.runner
      (reassigning.input ⟨7⟩ ⟨8⟩)).execute reopened.2 = (.ok (.object ⟨16⟩), rerun.2) :=
    execute_of_outcome hrun
  have hbound : ((.text "x", .object ⟨6⟩) : Value × Value) ∈ entries := by
    have hdict : reopened.2.heap.get? ⟨8⟩ =
        some (.dict [(.text "z", .text "="), (.text "x", .object ⟨6⟩)]) := by decide +kernel
    cases hopens.overrides.symm.trans hdict
    decide
  have hprinted : (command [] .attributes reassigning).execute World.overlaid =
      (.ok { output := reprinted.indented ++ "\n" }, rerun.2) := by
    rw [hcommand, execute_printed, hrerun]
    dsimp only
    rw [hjson]
  obtain ⟨p, w₂, plan, v, fields, -, -, hexec, hv, -, hnames, hvalues⟩ := hresult _ _ hprinted
  obtain rfl : v = .object ⟨16⟩ := Except.ok.inj (congrArg Prod.fst (hexec.symm.trans hrerun))
  cases hv.symm.trans hjson
  exact ⟨hall, hmild, _, _, plan, hprinted, hnames, hvalues hmild hread "x" _ _ hbound rfl
    (.list hlist (.cons (.int 2) (.cons (.bool true) .nil)))⟩

end CommandRun

/-- Declares posts with a title that a function computes from the context. -/
def Program.titled (title : Value → Program) : Program :=
  .define { name := "title" } (fun seen => title (seen.headD .null)) fun title =>
  .request (.command (.defineFactory none (.text "post") .null .null none)) fun post =>
  .request (.command (.set post (.text "title") none title)) .done

/-- Puts a number into the list of tags that it is given. -/
def Program.pushing (context : Value) : Program :=
  .request (.getAttr context "tags") fun tags =>
  .request (.getAttr tags "append") fun append =>
  .request (.call append [.int 4] []) fun _ => .done .null

/-- Puts another table in the place of the values that its evaluation keeps. -/
def Program.replacing (context : Value) : Program :=
  .request (.getAttr context "tags") fun _ =>
  .request (.getAttr context "_evaluation") fun evaluation =>
  .request (.newDict [(.text "tags", .int 5)]) fun values =>
  .request (.setAttr evaluation "_values" values) fun _ => .done .null

namespace CommandRun

/-- What is printed for the tags of a post, to which a list with a one is assigned. -/
def tagsPrinted (title : Value → Program) : Option Json :=
  match ((command [] .attributes
      { modules := [], factory := "post", traits := [], assignments := ["tags=[1]"] }).execute
    (((Program.titled title).run (.ofDepth 5)).execute World.fresh).2).1 with
  | .ok result => (Json.read result.output).toOption.bind (·.get? "tags")
  | .error _ => none

/-- **The very list that is assigned is handed over**, so a function that changes it changes what is
printed, and so does one that meddles with what its evaluation keeps. -/
theorem tags_changed : Assignment.ofText "tags=[1]" = .ok ⟨"tags", .list [.int 1]⟩ ∧
    tagsPrinted .pushing = some (.list [.int 1, .int 4]) ∧
    tagsPrinted .replacing = some (.int 5) := by
  decide +kernel

end CommandRun

end TraitFactory
