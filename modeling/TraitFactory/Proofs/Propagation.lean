import TraitFactory.Proofs.Conduct
import TraitFactory.Proofs.Nesting
import TraitFactory.Proofs.Runs

/-!
# Propagation of strategies

Runs start runs through associations, as deep as calls may be nested. Functions may do whatever they
like meanwhile, as long as they do not meddle with evaluation: the strategy of each run is the one
that its path passes on, and each run is over before that which it belongs to makes its instance.
What an evaluation does comes in one order: the attributes are resolved first, and what follows is set
by the strategy and the plan. Where a deed fails, nothing follows it.
-/

namespace TraitFactory

open Action

/-! ## 1. Nested surroundings -/

namespace Observed

variable (O : Observed) (conduct : Value → List Value → Conduct)

/-- What is told of a call one level above. -/
def calling (cause : Option (EvaluationId × Association)) (f : Value) (arguments : List Value) :
    Recorded Value :=
  match hookCall? f arguments with
  | some (r, factory, traits, overrides, strategy) =>
    Recorded.runAssociated O cause r factory traits overrides strategy
  | none => (conduct f arguments).perform O (context? arguments)

variable {O conduct} in
theorem records_calling (cause : Option (EvaluationId × Association)) (f : Value)
    (arguments : List Value) : Recorded.Records (calling O conduct cause f arguments)
      ((O.host.above conduct).call f arguments) := by
  rw [calling, Host.above]
  dsimp only
  rcases hookCall? f arguments with _ | ⟨r, factory, traits, overrides, strategy⟩
  · exact Conduct.records_perform O _ _
  · exact Recorded.records_runAssociated cause r factory traits overrides strategy

/-- **The surroundings one level above** others. -/
def above : Observed where
  host := O.host.above conduct
  call := calling O conduct none
  associate e a := calling O conduct (some (e, a))
  records_call := records_calling none
  records_associate e a := records_calling (some (e, a))

variable {O conduct} {c : Wiring} {root : Strategy}

/-- **What heeds a wiring is heeded one level above.** -/
theorem Heeds.above (h : O.Heeds c root) : (O.above conduct).Heeds c root where
  discreet f arguments w hlength hcomplete := by
    show Recorded.Tends _ (calling O conduct none f arguments) w
    rw [calling, hookCall?_of_length f hlength]
    refine Conduct.tends_perform tale_nil _ fun e he name w' hupheld => ?_
    exact Recorded.tends_read_complete ((hcomplete e he).upheld hupheld) name
  call fn path e w hruns := by
    show Recorded.Tends _ (calling O conduct none fn [.context e]) w
    have hlength : [Value.context e].length ≤ 2 := Nat.le_succ 1
    rw [calling, hookCall?_of_length fn hlength]
    refine Conduct.tends_perform tale_nests _ fun e' he name w' hupheld => ?_
    cases he
    exact (Recorded.yields_read_running h (hruns.upheld hupheld) name).1
  associate e a serial r factory traits o path w hwired hr :=
    Recorded.tends_runAssociated h hwired (some (e, a)) hr factory traits o

end Observed

/-- Surroundings with as many levels. -/
def Observed.nesting (manners : Manners) : Nat → Observed
  | 0 => .silent .exhausted
  | n + 1 => (nesting manners n).above (manners n)

theorem Observed.host_nesting (manners : Manners) (n : Nat) :
    (nesting manners n).host = .nesting manners n := by
  induction n with
  | zero => rfl
  | succ n ih => exact congrArg (Host.above · (manners n)) ih

/-- **At every level of nesting a wiring is heeded**, whatever functions do. -/
theorem Observed.heeds_nesting (manners : Manners) (n : Nat) (c : Wiring) (root : Strategy) :
    (nesting manners n).Heeds c root := by
  induction n with
  | zero =>
    have hcall : ∀ {P : List Mark → Prop} f arguments w, P [] → Recorded.Tends P
        (Recorded.silent (Host.exhausted.call f arguments)) w := fun f arguments w hnil _ =>
      ⟨.refl w, hnil⟩
    exact ⟨fun f arguments w _ _ => hcall f arguments w rfl,
      fun fn path e w _ => hcall fn _ w .nil,
      fun e a serial r factory traits o path w _ _ => hcall _ _ w (.inl rfl)⟩
  | succ n ih => exact ih.above

/-! ## 2. Runners -/

namespace Action

variable {w w' : World}

theorem idles_setCache (r : RegistryId) (flag : Value) : Idles (setCache r flag) :=
  keeps_bind keeps_get fun _ => keeps_bind (keeps_resolverOf r) fun _ => idles_modifyRegistry _ _

theorem idles_firstId (v : Value) : Idles (firstId v) := by
  unfold firstId
  split
  · exact keeps_pure _
  · split
    · exact keeps_pure _
    · exact keeps_wrongType

/-- A whole number is itself the first id. -/
theorem execute_firstId {v : Value} {start : Int} (h : v.asInt? = some start) (w : World) :
    (firstId v).execute w = (.ok (.int start), w) := by
  unfold firstId
  split
  · cases h
  · rw [h]
    rfl

theorem evaluator_of_makeEvaluator {settings : SettingsId} {associate : Value} {ev : EvaluatorId}
    (h : (makeEvaluator settings associate).execute w = (.ok ev, w')) :
    (∃ S first w₂, w.settingsAt? settings = some S ∧
        (firstId S.stubIdStart).execute w = (.ok first, w₂) ∧
        w'.evaluator? ev = some ⟨.settings settings, associate, first⟩) ∧
      w'.settings = w.settings ∧ w'.runners = w.runners := by
  obtain ⟨s, w₁, hs, hrest⟩ := ok_of_execute_bind h
  obtain ⟨first, w₂, hfirst, hnew⟩ := ok_of_execute_bind hrest
  obtain ⟨rfl, hS⟩ : w₁ = w ∧ w.settingsAt? settings = some s := by
    obtain ⟨_, _, hget, hs⟩ := ok_of_execute_bind hs
    cases hget
    split at hs
    · rename_i hfound
      cases hs
      exact ⟨rfl, hfound⟩
    · cases hs
  have hidle := idles_firstId s.stubIdStart w₁
  rw [hfirst] at hidle
  cases hnew
  exact ⟨⟨s, first, w₂, hS, hfirst, Array.getElem?_push_size⟩, hidle.settings, hidle.runners⟩

/-- **A new runner is wired**: its evaluator builds associations through it and follows its
settings, which say where its ids start. -/
theorem wired_newRunner {registry : RegistryId} {settings : RunnerSettings} {r : RunnerId}
    {follow : Bool} (hfollow : ∀ w : World, w.isTrue settings.useParentStrategy = follow)
    (h : (newRunner registry settings).execute w = (.ok r, w')) :
    ∃ c : Wiring, c.runner = some r ∧ c.follow = follow ∧ w'.Wired c ∧
      ∀ start, settings.stubIdStart.asInt? = some start →
        (w'.evaluator? c.evaluator).map Evaluator.nextId = some (.int start) := by
  obtain ⟨s, w₁, hs, hrest⟩ := ok_of_execute_bind h
  obtain ⟨_, w₂, hcache, hrest⟩ := ok_of_execute_bind hrest
  obtain ⟨_, _, hget, hrest⟩ := ok_of_execute_bind hrest
  cases hget
  obtain ⟨method, w₃, hmethod, hrest⟩ := ok_of_execute_bind hrest
  obtain ⟨ev, w₄, hmake, hlast⟩ := ok_of_execute_bind hrest
  have hcached := idles_setCache registry settings.cachePlans w₁
  rw [hcache] at hcached
  obtain ⟨⟨S, first, _, hS, hfirst, hev⟩, hsettings, hrunners⟩ := evaluator_of_makeEvaluator hmake
  cases hlast
  cases hmethod
  -- What came in between has left the settings where they were put.
  have hkept : w₄.settingsAt? s = some settings := by
    cases hs
    show w₄.settings[_]? = _
    rw [hsettings]
    show w₂.settings[_]? = _
    rw [hcached.settings]
    exact Array.getElem?_push_size
  refine ⟨⟨ev, s, some ⟨w₂.runners.size⟩, follow⟩, rfl, rfl, ⟨⟨_, hev, rfl, _, rfl⟩,
    ⟨settings, hkept, hfollow⟩, fun r hr => ?_⟩, fun start hstart => ?_⟩
  · cases hr
    refine ⟨⟨.registry registry, .settings s, .evaluator ev⟩, ?_, rfl⟩
    show (w₄.runners.push _)[w₂.runners.size]? = _
    have hsize : w₂.runners.size = w₄.runners.size := by rw [hrunners]
    rw [hsize]
    exact Array.getElem?_push_size
  · have hsame : S = settings := by
      rw [World.settingsAt?, hsettings] at hkept
      exact Option.some.inj (hS.symm.trans hkept)
    rw [hsame, execute_firstId hstart] at hfirst
    cases hfirst
    exact congrArg (Option.map Evaluator.nextId) hev

end Action

/-! ## 3. Propagation -/

/-- Whether a mark tells of a run that an association with a strategy of its own started. -/
def Mark.explicit : Mark → Bool
  | .begins _ _ _ (some (_, a)) => a.strategy.isSome
  | _ => false

/-- The evaluation that begins, and its strategy. -/
def Mark.begun? : Mark → Option (EvaluationId × Strategy)
  | .begins e _ s _ => some (e, s)
  | _ => none

/-- **Where no association has a strategy of its own**, what a run starts does nothing that the run
itself would not do. -/
theorem Nests.closes {root : Strategy} {path : List Association} {e e' : EvaluationId}
    {marks : List Mark} {deed : Deed} (h : Nests root true path e marks)
    (hpath : ∀ a ∈ path, a.strategy = none) (hexplicit : ∀ m ∈ marks, m.explicit = false)
    (hdeed : .starts e' deed ∈ marks) :
    Mark.resolves e' (.starts e' deed) ∨ deed.closes root := by
  induction h with
  | nil => exact absurd hdeed List.not_mem_nil
  | @own path e m rest hown hrest ih =>
    rcases List.mem_cons.mp hdeed with rfl | hmem
    · refine .inl ?_
      cases deed <;> simp [Mark.resolves] at hown ⊢
    · exact ih hpath (fun m hm => hexplicit m (List.mem_cons_of_mem _ hm)) hmem
  | @run path e e₁ a plan inner after rest hstarts hinner hafter hcourse hrest ihinner ihrest =>
    rw [List.cons_append, List.cons_append] at hexplicit hdeed
    obtain ⟨hcause, hinside⟩ := List.forall_mem_cons.mp hexplicit
    have ha : a.strategy = none := Option.not_isSome_iff_eq_none.mp (Bool.eq_false_iff.mp hcause)
    have hpath' : ∀ a' ∈ path ++ [a], a'.strategy = none :=
      List.forall_mem_append.mpr ⟨hpath, fun a' ha' => List.mem_singleton.mp ha' ▸ ha⟩
    obtain ⟨hrun, hothers⟩ := List.forall_mem_append.mp hinside
    rcases List.mem_cons.mp hdeed with heq | hmem
    · cases heq
    rcases List.mem_append.mp hmem with hmem | hmem
    · rcases List.mem_append.mp hmem with hmem | hmem
      · exact ihinner hpath' (List.forall_mem_append.mp hrun).1 hmem
      · have hcloses := hafter _ hmem
        rw [Strategy.along_of_none root hpath'] at hcloses
        exact .inr (Bool.and_eq_true_iff.mp hcloses).2
    · exact ihrest hpath hothers hmem

/-- So does what the run itself tells. -/
theorem closes_of_run {root : Strategy} {e e' : EvaluationId} {plan : Plan} {inner after : List Mark}
    {deed : Deed} (hinner : Nests root true [] e inner) (hafter : Closing root e after)
    (hexplicit : ∀ m ∈ Mark.begins e plan root none :: inner ++ after, m.explicit = false)
    (hdeed : .starts e' deed ∈ Mark.begins e plan root none :: inner ++ after) :
    Mark.resolves e' (.starts e' deed) ∨ deed.closes root := by
  rw [List.cons_append] at hexplicit hdeed
  obtain ⟨_, hinside⟩ := List.forall_mem_cons.mp hexplicit
  rcases List.mem_cons.mp hdeed with heq | hmem
  · cases heq
  rcases List.mem_append.mp hmem with hmem | hmem
  · have hnone : ∀ a ∈ ([] : List Association), a.strategy = none := fun _ ha =>
      absurd ha List.not_mem_nil
    exact hinner.closes hnone (List.forall_mem_append.mp hinside).1 hmem
  · exact .inr (Bool.and_eq_true_iff.mp (hafter _ hmem)).2

namespace Recorded

/-- What names no strategy begins no evaluation. -/
theorem told_of_no_strategy {O : Observed} {c : Wiring} {root : Strategy} {w : World}
    (hO : O.Heeds c root) (hwired : w.Wired c) (cause : Option (EvaluationId × Association))
    (p : PlanId) {strategy overrides : Value}
    (hstrategy : strategy.asText?.bind Strategy.find? = none) (hoverrides : overrides.isExternal)
    (constructor persistor : Option Value)
    (hmild : Mild (evaluate O cause c.evaluator p strategy overrides constructor persistor w).2) :
    (evaluate O cause c.evaluator p strategy overrides constructor persistor w).2 = [] := by
  have hprepared := yields_prepare hO.discreet hwired p strategy hoverrides constructor persistor
  rcases hprepare : prepare O c.evaluator p strategy overrides constructor persistor w with
    ⟨⟨failure | ⟨s, plan, e⟩, w₁⟩, marks⟩ <;> rw [Yields, Tends, hprepare] at hprepared <;>
    rw [evaluate] at hmild ⊢
  · rw [bind_error hprepare] at hmild ⊢
    exact (hprepared.1 hmild).2
  · rw [bind_ok hprepare] at hmild
    obtain ⟨hnamed, _⟩ := hprepared.2 (mild_append.mp hmild).1 _ rfl
    rw [hstrategy] at hnamed
    cases hnamed

/-- **Propagation of strategies through associations.** Whatever functions do, as long as they do
not meddle with evaluation, what is told of an evaluation is a tree of runs: each run has the
strategy that its path passes on, and is told of from beginning to end while the attributes of the
run that it belongs to are resolved, so before that makes its instance. Where only attributes are
wanted, an association without a strategy starts no run and is nothing. So if associations follow
their surroundings and have no strategies of their own, no run makes an instance where only
attributes are wanted, and none persists unless the first one is to create. -/
theorem evaluate_propagates (manners : Manners) (n : Nat) {w : World} {c : Wiring}
    (hwired : w.Wired c) (p : PlanId) (strategy : Value) {overrides : Value}
    (hoverrides : overrides.isExternal) (constructor persistor : Option Value)
    (hmild : Mild (evaluate (.nesting manners n) none c.evaluator p strategy overrides constructor
      persistor w).2) : ∃ marks,
    evaluate (.nesting manners n) none c.evaluator p strategy overrides constructor persistor w =
      ((Action.evaluate (.nesting manners n) c.evaluator p strategy overrides constructor
        persistor).execute w, marks) ∧
    (marks = [] ∨ ∃ s e plan inner after, strategy.asText?.bind Strategy.find? = some s ∧
      marks = .begins e plan s none :: inner ++ after ∧ Nests s c.follow [] e inner ∧
      Closing s e after ∧ plan.Followed e s (inner ++ after) ∧
      (c.follow = true → (∀ m ∈ marks, m.explicit = false) →
        (s = .attributesFor → ∀ e', .starts e' .constructs ∉ marks) ∧
        (s ≠ .create → ∀ e', .starts e' .persists ∉ marks))) ∧
    ∀ e d a w', w'.Runs c .attributesFor e → a.strategy = none →
      buildAssociation (.nesting manners n) e d a w' = ((.ok .null, w'), []) := by
  obtain ⟨marks, hmarks⟩ : ∃ marks, (evaluate (.nesting manners n) none c.evaluator p strategy
    overrides constructor persistor w).2 = marks := ⟨_, rfl⟩
  have hrecords := records_evaluate (O := .nesting manners n) none c.evaluator p strategy overrides
    constructor persistor w
  rw [Observed.host_nesting] at hrecords
  refine ⟨marks, Prod.ext hrecords hmarks, ?_, fun e d a w' hruns ha => ?_⟩
  · rcases hstrategy : strategy.asText?.bind Strategy.find? with _ | s
    · have hheeds := Observed.heeds_nesting manners n c .build
      rw [told_of_no_strategy hheeds hwired none p hstrategy hoverrides constructor persistor hmild]
        at hmarks
      exact .inl hmarks.symm
    · have hheeds := Observed.heeds_nesting manners n c s
      have hroot : strategy.asText?.bind Strategy.find? = some (s.along c.follow []) := by
        rw [hstrategy, Strategy.along_nil]
      obtain ⟨_, htells⟩ := tends_evaluate hheeds hwired none p hroot hoverrides constructor
        persistor hmild
      rw [hmarks] at htells
      rcases htells with hnil | ⟨e, plan, inner, after, htold, hnests, hclosing, hcourse⟩
      · exact .inl hnil
      · rw [Strategy.along_nil] at htold hclosing hcourse
        refine .inr ⟨s, e, plan, inner, after, rfl, htold, hnests, hclosing, hcourse,
          fun hfollow hexplicit => ?_⟩
        rw [hfollow] at hnests
        subst htold
        refine ⟨fun hs e' hmem => ?_, fun hs e' hmem => ?_⟩
        · rcases closes_of_run hnests hclosing hexplicit hmem with hresolves | hcloses
          · cases hresolves
          · rw [hs] at hcloses
            cases hcloses
        · rcases closes_of_run hnests hclosing hexplicit hmem with hresolves | hcloses
          · cases hresolves
          · exact hs (of_decide_eq_true hcloses)
  · have hstarts : a.starts .attributesFor = false := by rw [Association.starts, ha]; rfl
    rw [buildAssociation, silent_bind_ok (request?_of_not_starts hruns hstarts)]
    rfl

end Recorded

/-! ## 4. A book and its author -/

namespace World

/-- A function that reads the author through the context that it is handed. -/
def authored : Function where
  body
    | [context] => .request (.getAttr context "author") .done
    | _ => .done .null

/-- A book whose credit is read from its author. The author follows the book, and its draft is
wanted as attributes. -/
def shelf : World :=
  ((((({ fresh with functions := #[authored] } : World).after
    (.defineFactory none (.text "author") .null .null none)).after
    (.defineFactory none (.text "book") .null .null none)).after
    (.set (.builder ⟨1⟩) (.text "credit") none (.function ⟨0⟩))).after
    (.associate (.builder ⟨1⟩) (.text "author") .null none none none)).after
    (.associate (.builder ⟨1⟩) (.text "draft") (.text "author") none (some (.text "attributes_for"))
      none) |>.after (.compile none (.text "book") none)

/-- How the evaluator of a new session is wired. -/
def freshWiring : Wiring := ⟨⟨0⟩, ⟨0⟩, some ⟨0⟩, true⟩

theorem wired_shelf : shelf.Wired freshWiring where
  evaluator := ⟨⟨.settings ⟨0⟩, .method 0 (.runner ⟨0⟩) associationHook,
    (default : RunnerSettings).stubIdStart⟩,
    by decide +kernel, rfl, 0, rfl⟩
  settings := ⟨default, by decide +kernel, fun _ => rfl⟩
  runner r hr := by
    cases hr
    exact ⟨⟨.registry ⟨0⟩, .settings ⟨0⟩, .evaluator ⟨0⟩⟩, by decide +kernel, rfl⟩

end World

namespace Recorded

/-- What is told when the book is built. -/
def toldOfShelf : List Mark :=
  (evaluate (.nesting .ofPrograms 5) none ⟨0⟩ ⟨0⟩ (.text "build") .null none none World.shelf).2

/-- **What is told when the book is built**: its author is built while its credit is read, and of
the draft only the attributes are wanted. -/
theorem evaluate_propagates_shelf :
    World.shelf.Wired World.freshWiring ∧ Mild toldOfShelf ∧
      toldOfShelf.filterMap Mark.begun? =
        [(⟨0⟩, .build), (⟨1⟩, .build), (⟨2⟩, .attributesFor)] ∧
      ∃ e plan inner after, toldOfShelf = .begins e plan .build none :: inner ++ after ∧
        Nests .build true [] e inner ∧ Closing .build e after ∧
        plan.Followed e .build (inner ++ after) := by
  have hmild : Mild toldOfShelf := by decide +kernel
  have hbegun : toldOfShelf.filterMap Mark.begun? =
      [(⟨0⟩, .build), (⟨1⟩, .build), (⟨2⟩, .attributesFor)] := by decide +kernel
  obtain ⟨marks, hrun, hcases, _⟩ := evaluate_propagates .ofPrograms 5 World.wired_shelf ⟨0⟩
    (.text "build") rfl none none hmild
  have hmarks : toldOfShelf = marks := congrArg Prod.snd hrun
  refine ⟨World.wired_shelf, hmild, hbegun, ?_⟩
  rcases hcases with hnil | ⟨s, e, plan, inner, after, hs, htold, hnests, hclosing, hcourse, _⟩
  · rw [hmarks, hnil] at hbegun
    cases hbegun
  · cases hs
    exact ⟨e, plan, inner, after, hmarks.trans htold, hnests, hclosing, hcourse⟩

end Recorded

/-! ## 5. The protocol of an evaluation -/

namespace Recorded

/-- What a run tells once its attributes have been resolved is told of what follows only. -/
theorem closing_of_lifecycle {O : Observed} {c : Wiring} {s : Strategy} {e : EvaluationId}
    {E : Evaluation} {w : World} {before after : List Segment} (hO : O.Heeds c s)
    (hruns : w.Runs c s e) (hE : w.evaluation? e = some E) (hfresh : E.Fresh)
    (hbefore : (resolve O e w).2 = told e before)
    (htold : (lifecycle O e c.evaluator E.plan s w).2 = told e (before ++ after))
    (hmild : Mild (lifecycle O e c.evaluator E.plan s w).2) : Closing s e (told e after) := by
  have hroot : s.along c.follow [] = s := s.along_nil c.follow
  have hatRoot : w.Runs c (s.along c.follow []) e := by rwa [hroot]
  have hlife := tends_lifecycle hO hatRoot hE hfresh c.evaluator
  rw [hroot] at hlife
  obtain ⟨_, after', hafter, _, hclosing, _⟩ := hlife hmild
  rw [hbefore, htold, told_append] at hafter
  rwa [List.append_cancel_left hafter]

/-- **The protocol of an evaluation.** Whatever is called does, an evaluation that has been prepared
goes through its course: it gives a result just when it has gone through all of it, and ends with
the failure of the first deed that fails. So it persists at most once, and only to create. Once its
attributes are resolved, it computes none any more, as long as what is called does not meddle with
evaluation. -/
theorem evaluate_course (O : Observed) (cause : Option (EvaluationId × Association))
    (ev : EvaluatorId) (p : PlanId) (strategy overrides : Value)
    (constructor persistor : Option Value) (w : World) :
    (evaluate O cause ev p strategy overrides constructor persistor w).1 =
      (Action.evaluate O.host ev p strategy overrides constructor persistor).execute w ∧
    match prepare O ev p strategy overrides constructor persistor w with
    | ((.error failure, w'), marks) =>
      evaluate O cause ev p strategy overrides constructor persistor w =
        ((.error failure, w'), marks)
    | ((.ok (s, plan, e), _), marks) => ∃ listed before after,
      (evaluate O cause ev p strategy overrides constructor persistor w).2 =
        marks ++ .begins e plan s cause :: (told e before ++ told e after) ∧
      Through (plan.course listed s)
        (evaluate O cause ev p strategy overrides constructor persistor w).1.1
        (before ++ after) ∧
      before.map (·.deed) <+: plan.names.map .resolves ∧
      (plan.Spares O.host → listed = plan.names) ∧
      ((before ++ after).map (·.deed)).count .persists ≤ 1 ∧
      (.persists ∈ (before ++ after).map (·.deed) → s = .create) ∧
      ∀ c, O.Heeds c s → w.Wired c → ev = c.evaluator → overrides.isExternal →
        Mild (evaluate O cause ev p strategy overrides constructor persistor w).2 →
        Closing s e (told e after) := by
  refine ⟨records_evaluate cause ev p strategy overrides constructor persistor w, ?_⟩
  rcases hprepare : prepare O ev p strategy overrides constructor persistor w with
    ⟨⟨failure | ⟨s, plan, e⟩, w'⟩, marks⟩
  · exact bind_error hprepare
  · obtain ⟨E, hE, hfresh, rfl⟩ := evaluation_of_prepare hprepare
    obtain ⟨listed, before, after, hbefore, hresolves, hmarks, hthrough, hlisted⟩ :=
      goesThrough_lifecycle (O := O) hE hfresh ev s
    have hevaluate : evaluate O cause ev p strategy overrides constructor persistor w =
        ((lifecycle O e ev E.plan s w').1,
          marks ++ .begins e E.plan s cause :: (lifecycle O e ev E.plan s w').2) := by
      rw [evaluate, bind_ok hprepare]
      rfl
    rw [hevaluate]
    refine ⟨listed, before, after, by rw [hmarks, told_append], hthrough, hresolves, hlisted, ?_,
      fun h => E.plan.create_of_persists (hthrough.isPrefix.subset h), ?_⟩
    · exact Nat.le_trans (hthrough.isPrefix.sublist.count_le _)
        (E.plan.count_persists_course listed s)
    · rintro c hO hwired rfl hoverrides hmild
      obtain ⟨hmild₁, hmild₂⟩ := mild_append.mp hmild
      have hprepared := yields_prepare hO.discreet hwired p strategy hoverrides constructor persistor
      rw [Yields, Tends, hprepare] at hprepared
      obtain ⟨_, hruns⟩ := hprepared.2 hmild₁ _ rfl
      exact closing_of_lifecycle hO hruns hE hfresh hbefore hmarks (mild_cons.mp hmild₂).2

end Recorded

end TraitFactory
