import TraitFactory.Proofs.Discipline
import TraitFactory.Proofs.Overriding
import TraitFactory.Proofs.Spelling

/-!
# Shared values

A value that is shared is handed over itself, never as a copy: the attribute that it wins is that
very value, whoever reads it first and however deep in nested runs. What a call overrides an
attribute with is shared, unless it is an attribute value itself. Only what an association overrides
attributes with is copied before the nested run is given it, shared or not.
-/

namespace TraitFactory

open Action Recorded

/-! ## 1. The ledger of shared values -/

/-- **All that is kept is what is handed over.** -/
def Plan.Hands (plan : Plan) (t : Table Value) : Prop :=
  ∀ name d v, plan.declaration? name = some d → t.get? name = some v → d.Hands v

theorem Plan.hands_nothing (plan : Plan) : plan.Hands ∅ := fun _ _ _ _ hv => by cases hv

/-- What is handed over may be kept. -/
theorem Plan.Hands.insert {plan : Plan} {t : Table Value} {name : String} {d : Declaration}
    {v : Value} (h : plan.Hands t) (hd : plan.declaration? name = some d) (hv : d.Hands v) :
    plan.Hands (t.insert name v) := by
  intro name' d' v' hd' hv'
  by_cases heq : name' = name
  · subst heq
    rw [Table.get?_insert_self] at hv'
    cases hd.symm.trans hd'
    cases hv'
    exact hv
  · rw [Table.get?_insert_of_ne _ _ heq] at hv'
    exact h name' d' v' hd' hv'

/-- **Evaluations deliver** on the way from one world to another: those that have kept what they were
handed still do, and so do those that have begun on the way. -/
structure World.Delivers (w : World) (marks : List Mark) (w' : World) : Prop where
  upheld : w.Upheld w'
  standing : ∀ e E t t' active, w.Stands e E t active → E.declarations = none →
    E.plan.Hands t → w'.Stands e E t' active → E.plan.Hands t'
  begun : ∀ e plan s cause, .begins e plan s cause ∈ marks →
    ∃ E t, w'.Stands e E t [] ∧ E.declarations = none ∧ E.plan = plan ∧ plan.Hands t

namespace World

variable {w w₁ w' : World} {e : EvaluationId} {E : Evaluation} {t t' : Table Value}
  {active : List String} {name : String} {marks marks' inner : List Mark} {m : Mark}

theorem Unmoved.delivers (h : w.Unmoved w') : w.Delivers [] w' where
  upheld := h.upheld
  standing _ _ _ _ _ hE _ hhands hE' := (h.stands hE).values_eq hE' ▸ hhands
  begun _ _ _ _ hmem := absurd hmem List.not_mem_nil

theorem Delivers.trans (h : w.Delivers marks w₁) (h' : w₁.Delivers marks' w') :
    w.Delivers (marks ++ marks') w' where
  upheld := h.upheld.trans h'.upheld
  standing e E t t' active hE hdeclarations hhands hE' := by
    obtain ⟨t₁, hE₁, _⟩ := h.upheld.stands hE
    have hhands₁ := h.standing e E t t₁ active hE hdeclarations hhands hE₁
    exact h'.standing e E t₁ t' active hE₁ hdeclarations hhands₁ hE'
  begun e plan s cause hmem := by
    obtain hmem | hmem := List.mem_append.mp hmem
    · obtain ⟨E, t₁, hE₁, hdeclarations, rfl, hhands₁⟩ := h.begun e plan s cause hmem
      obtain ⟨t', hE', _⟩ := h'.upheld.stands hE₁
      exact ⟨E, t', hE', hdeclarations, rfl,
        h'.standing e E t₁ t' [] hE₁ hdeclarations hhands₁ hE'⟩
    · exact h'.begun e plan s cause hmem

theorem delivers_plain (hm : m.isPlain) : w.Delivers [m] w where
  upheld := .refl w
  standing _ _ _ _ _ hE _ hhands hE' := hE.values_eq hE' ▸ hhands
  begun e plan s cause hmem := by
    rw [← List.mem_singleton.mp hmem] at hm
    cases hm

theorem delivers_begins {s : Strategy} {cause : Option (EvaluationId × Association)}
    (hE : w.Stands e E ∅ []) (hdeclarations : E.declarations = none) :
    w.Delivers [.begins e E.plan s cause] w where
  upheld := .refl w
  standing _ _ _ _ _ hE _ hhands hE' := hE.values_eq hE' ▸ hhands
  begun e' plan s' cause' hmem := by
    cases List.mem_singleton.mp hmem
    exact ⟨E, ∅, hE, hdeclarations, rfl, E.plan.hands_nothing⟩

/-- **While an attribute is computed** other evaluations deliver, and so does the one that computes it if
it keeps nothing but what it was handed. -/
theorem delivers_computing {w₂ : World} {ending : Ending} (hE : w.Stands e E t active)
    (hdeclarations : E.declarations = none) (hinner : (activated w e name).Delivers inner w₁)
    (hupheld : w.Upheld w₂)
    (hothers : ∀ e' E' t' active', e' ≠ e →
      (w₂.Stands e' E' t' active' ↔ w₁.Stands e' E' t' active'))
    (hself : ∀ t₁, w₁.Stands e E t₁ (active ++ [name]) → E.plan.Hands t₁ →
      ∃ t₂, w₂.Stands e E t₂ active ∧ E.plan.Hands t₂) :
    w.Delivers (.starts e (.computes name) :: inner ++ [.ends e (.computes name) ending]) w₂ where
  upheld := hupheld
  standing e' E' t₀ t' active₀ hE' hdeclarations' hhands hE₂ := by
    by_cases hne : e' = e
    · subst hne
      have hsame := Option.some.inj (hE.symm.trans hE')
      have hplan : E.plan = E'.plan := (congrArg Evaluation.plan hsame :)
      cases hE.values_eq hE'
      rw [← hplan] at hhands ⊢
      obtain ⟨t₁, hE₁, _⟩ := hinner.upheld.stands (stands_activated hE)
      have hhands₁ := hinner.standing _ E t t₁ _ (stands_activated hE) hdeclarations hhands hE₁
      obtain ⟨t₂, hE₂', hhands₂⟩ := hself t₁ hE₁ hhands₁
      exact hE₂'.values_eq hE₂ ▸ hhands₂
    · exact hinner.standing e' E' t₀ t' active₀ ((stands_modify_of_ne _ hne).mpr hE')
        hdeclarations' hhands ((hothers e' E' t' active₀ hne).mp hE₂)
  begun e' plan s cause hmem := by
    have hmem : Mark.begins e' plan s cause ∈ inner := by simpa using hmem
    obtain ⟨E', t₁, hE', hdeclarations', hplan, hhands⟩ := hinner.begun e' plan s cause hmem
    -- What is computing has something active, and what has begun inside has nothing.
    have hne : e' ≠ e := by
      rintro rfl
      obtain ⟨_, hstill, _⟩ := hinner.upheld.stands (stands_activated hE)
      exact List.append_ne_nil_of_right_ne_nil _ (List.cons_ne_nil _ _) (hstill.active_eq hE')
    exact ⟨E', t₁, (hothers e' E' t₁ [] hne).mpr hE', hdeclarations', hplan, hhands⟩

end World

/-- **Deliveries are a ledger.** -/
def Ledger.deliveries : Ledger where
  rel := World.Delivers
  upheld := World.Delivers.upheld
  unmoved := World.Unmoved.delivers
  trans := World.Delivers.trans
  plain := World.delivers_plain
  begins := World.delivers_begins
  failed hE hdeclarations _ _ _ hinner _ :=
    World.delivers_computing hE hdeclarations hinner (World.upheld_across hE hinner.upheld)
      (fun _ _ _ _ hne => World.stands_modify_of_ne _ hne)
      (fun t₁ hE₁ hhands => ⟨t₁, stands_deactivated hE₁, hhands⟩)
  done hE hdeclarations _ _ hkept hinner hd hv := by
    obtain ⟨t₁, hE₁, _⟩ := hinner.upheld.stands (stands_activated hE)
    refine World.delivers_computing hE hdeclarations hinner
      (World.upheld_withKept hE hkept (stands_deactivated hE₁) (World.upheld_across hE hinner.upheld) _)
      (fun _ _ _ _ hne => (World.stands_modify_of_ne _ hne).trans (World.stands_modify_of_ne _ hne))
      fun t₁ hE₁ hhands => ⟨_, stands_withKept (stands_deactivated hE₁), hhands.insert hd hv⟩

/-! ## 2. What overrides declare -/

namespace Action

variable {w w' : World} {p q : PlanId} {entries : List (Value × Value)}
  {constructor persistor : Option Value}

/-- Overrides are put on top of a plan that is there. -/
theorem plan?_of_applyOverrides (hheld : ∀ x ∈ entries, w.Holds x.2) (hsome : entries ≠ [])
    (h : (applyOverrides p entries constructor persistor).execute w = (.ok q, w')) :
    ∃ plan, w.plan? p = some plan := by
  obtain ⟨hnames, hhooks⟩ := applicable_of_applyOverrides h
  obtain ⟨ds, w₁, hds, -, hf⟩ := execute_overrideDeclarations hnames hheld (.refl w)
  have hnot : ¬ (entries.isEmpty && (constructor.bind Value.hook?).isNone &&
      (persistor.bind Value.hook?).isNone) = true := by simp [hsome]
  dsimp only [hooksCallable] at hhooks
  unfold applyOverrides at h
  dsimp only at h
  rw [if_neg hnot, execute_bind_ok hds, if_pos hhooks] at h
  obtain ⟨stored, w₂, hstored, _⟩ := ok_of_execute_bind h
  obtain ⟨w₃, w₄, hget, hfound⟩ := ok_of_execute_bind hstored
  cases hget
  split at hfound
  · rename_i found hplan
    -- No plan is made while the overrides are read.
    rw [hf.undisturbed.stored?] at hplan
    exact ⟨found.plan, congrArg (Option.map StoredPlan.plan) hplan⟩
  · cases hfound

/-- **The last override of a name wins.** -/
theorem wins_of_applyOverrides {name : String} {v : Value} {plan' : Plan}
    (hheld : ∀ x ∈ entries, w.Holds x.2) (hv : lastOverride? entries name = some v)
    (h : (applyOverrides p entries constructor persistor).execute w = (.ok q, w'))
    (hq : w'.plan? q = some plan') :
    ∃ d, plan'.declaration? name = some d ∧ d.value = w.overriding v := by
  have hsome : entries ≠ [] := by
    rintro rfl
    cases hv
  obtain ⟨plan, hp⟩ := plan?_of_applyOverrides hheld hsome h
  obtain ⟨hnames, hhooks⟩ := applicable_of_applyOverrides h
  obtain ⟨q', w₁, ds, hexec, hovers, hq', _⟩ :=
    execute_applyOverrides hp hnames hheld hhooks fun hnothing => hsome hnothing.1
  cases h.symm.trans hexec
  cases hq.symm.trans hq'
  have hprevails := prevails_of_overrides hovers name none
  rw [Prevails, hv, Option.or_none] at hprevails
  obtain ⟨d, hd, -, hvalue, -⟩ := hprevails
  refine ⟨d, ?_, hvalue⟩
  rw [Plan.declaration?_withOverrides_or, hd]
  rfl

end Action

/-! ## 3. Runs -/

namespace World

/-- **A value that is shared under a name** in a run of a plan with overrides: the declaration that
wins shares it, or the last override of the name is the value itself, or is an attribute value that
shares it. -/
inductive Shares (w : World) (overrides : Value) (plan : Plan) (name : String) (u : Value) : Prop
  | declared {d : Declaration} (hd : plan.declaration? name = some d) (hu : d.value = .fixed u true)
  | plain {entries : List (Value × Value)} (hentries : w.entries? overrides = some entries)
      (hheld : ∀ x ∈ entries, w.Holds x.2) (hu : Action.lastOverride? entries name = some u)
      (hplain : w.heap.attribute? u = none)
  | given {entries : List (Value × Value)} {v : Value}
      (hentries : w.entries? overrides = some entries) (hheld : ∀ x ∈ entries, w.Holds x.2)
      (hv : Action.lastOverride? entries name = some v)
      (hu : w.heap.attribute? v = some (.fixed u true))

/-- **An attribute that has been resolved** to a value. -/
def Resolved (w : World) (e : EvaluationId) (name : String) (v : Value) : Prop :=
  ∃ E t active, w.Stands e E t active ∧ t.get? name = some v

variable {w w' : World} {e : EvaluationId} {name : String} {v : Value}

theorem Resolved.upheld (h : w.Resolved e name v) (hupheld : w.Upheld w') :
    w'.Resolved e name v := by
  obtain ⟨E, t, active, hE, hv⟩ := h
  obtain ⟨t', hE', hholds⟩ := hupheld.stands hE
  exact ⟨E, t', active, hE', hholds name v hv⟩

/-- What a complete evaluation declares as shared, it has resolved to itself. -/
theorem Complete.resolved {E : Evaluation} {t : Table Value} {active : List String} {d : Declaration}
    {u : Value} (h : w.Complete e) (hE : w.Stands e E t active) (hhands : E.plan.Hands t)
    (hd : E.plan.declaration? name = some d) (hu : d.value = .fixed u true) :
    w.Resolved e name u := by
  obtain ⟨E', t', active', hE', -, hall⟩ := h
  have hsame := Option.some.inj (hE.symm.trans hE')
  have hplan : E.plan = E'.plan := (congrArg Evaluation.plan hsame :)
  cases hE.values_eq hE'
  have hname := List.find?_some hd
  have hdeclared : name ∈ E.plan.names :=
    of_decide_eq_true hname ▸ List.mem_map_of_mem (List.mem_of_find?_eq_some hd)
  obtain ⟨v, hv⟩ := Option.isSome_iff_exists.mp (hall name (hplan ▸ hdeclared))
  exact ⟨E, t, active, hE, hhands name d v hd hv u hu ▸ hv⟩

end World

namespace Recorded

variable {O : Observed} {e : EvaluationId} {w w' : World} {ev : EvaluatorId} {p : PlanId}
  {plan : Plan} {s : Strategy} {strategy overrides : Value} {constructor persistor : Option Value}
  {marks : List Mark} {name : String} {u : Value}

/-- What has been prepared: the overrides have been put on top of the plan. -/
theorem applied_of_prepare {entries : List (Value × Value)}
    (hentries : w.entries? overrides = some entries)
    (h : prepare O ev p strategy overrides constructor persistor w =
      ((.ok (s, plan, e), w'), marks)) :
    (strategyOf strategy).execute w = (.ok s, w) ∧
      ∃ q w₁, (applyOverrides p entries constructor persistor).execute w = (.ok q, w₁) ∧
        w₁.plan? q = some plan := by
  obtain ⟨s', w₁, _, _, hstrategy, hrest, _⟩ := ok_of_bind h
  obtain ⟨entries', w₂, _, _, hoverrides, hrest, _⟩ := ok_of_bind hrest
  obtain ⟨p', w₃, _, _, happly, hrest, _⟩ := ok_of_bind hrest
  obtain ⟨plan', w₄, _, _, hplan, hrest, _⟩ := ok_of_bind hrest
  obtain ⟨e', w₅, _, _, _, hrest, _⟩ := ok_of_bind hrest
  obtain ⟨_, w₆, _, _, _, hdone, _⟩ := ok_of_bind hrest
  cases hdone
  have hstrategy : (strategyOf strategy).execute w = (.ok s, w₁) := congrArg Prod.fst hstrategy
  -- Neither the strategy nor the overrides take anything but a look at the world.
  have hsame : w₁ = w := by
    have hkept := keeps_strategyOf (F := .same) strategy w
    rwa [hstrategy] at hkept
  subst hsame
  have hread : overrideEntries O overrides w₁ = ((.ok entries, w₁), []) := by
    have htrue := World.isTrue_of_entries? hentries
    rw [overrideEntries, silent_bind_ok (execute_get w₁), hentries, htrue]
    cases entries <;> rfl
  cases hread.symm.trans hoverrides
  obtain ⟨rfl, hplan⟩ := plan?_of_getPlan hplan
  exact ⟨hstrategy, p', w₄, congrArg Prod.fst happly, hplan⟩

/-- **What an override says wins** in the plan that has been prepared. -/
theorem overridden_of_prepare {entries : List (Value × Value)} {v : Value}
    (hentries : w.entries? overrides = some entries) (hheld : ∀ x ∈ entries, w.Holds x.2)
    (hv : lastOverride? entries name = some v)
    (h : prepare O ev p strategy overrides constructor persistor w =
      ((.ok (s, plan, e), w'), marks)) :
    ∃ d, plan.declaration? name = some d ∧ d.value = w.overriding v := by
  obtain ⟨-, q, w₁, happly, hplan⟩ := applied_of_prepare hentries h
  exact wins_of_applyOverrides hheld hv happly hplan

/-- **Whatever is shared under a name, a shared value wins it.** -/
theorem declared_of_shares (hshares : w.Shares overrides plan name u)
    (h : prepare O ev p strategy overrides constructor persistor w =
      ((.ok (s, plan, e), w'), marks)) :
    ∃ d, plan.declaration? name = some d ∧ d.value = .fixed u true := by
  cases hshares with
  | declared hd hu => exact ⟨_, hd, hu⟩
  | plain hentries hheld hu hplain =>
    obtain ⟨d, hd, hvalue⟩ := overridden_of_prepare hentries hheld hu h
    exact ⟨d, hd, by rw [hvalue, World.overriding, hplain, Option.getD_none]⟩
  | given hentries hheld hv hu =>
    obtain ⟨d, hd, hvalue⟩ := overridden_of_prepare hentries hheld hv h
    exact ⟨d, hd, by rw [hvalue, World.overriding, hu, Option.getD_some]⟩

/-- **An evaluation that comes to a result has resolved what is shared to itself.** -/
theorem resolved_of_evaluate (customs : Customs) (n : Nat)
    {cause : Option (EvaluationId × Association)} {v : Value}
    (hrun : evaluate (.watched customs n) cause ev p strategy overrides constructor persistor w =
      ((.ok v, w'), marks)) (hmild : Mild marks) :
    ∃ e plan s after, marks = (prepare (.watched customs n) ev p strategy overrides constructor
        persistor w).2 ++ .begins e plan s cause :: after ∧
      ∀ name u, w.Shares overrides plan name u → w'.Resolved e name u := by
  have hO := Observed.charted_watched customs n
  obtain ⟨⟨s, plan, e⟩, w₁, before, later, hprepare, hrest, rfl⟩ := ok_of_bind hrun
  obtain ⟨_, w₂, told, after, htell, hlifecycle, rfl⟩ := ok_of_bind hrest
  cases htell
  obtain ⟨E, hE, hfresh, rfl⟩ := stands_of_prepare hprepare
  have hafter := (mild_cons.mp (mild_append.mp hmild).2).2
  have hdelivers := follows_lifecycle E.plan (Observed.follows_watched .deliveries customs n) hE
    hfresh ev s
  rw [Follows, hlifecycle] at hdelivers
  have hdelivers : w₁.Delivers after w' := hdelivers hafter
  obtain ⟨t', hE', _⟩ := hdelivers.upheld.stands hE
  have hhands := hdelivers.standing e E ∅ t' [] hE hfresh E.plan.hands_nothing hE'
  have hcomplete := complete_of_lifecycle hO hE hfresh hlifecycle hafter
  refine ⟨e, E.plan, s, after, by rw [hprepare]; rfl, fun name u hshares => ?_⟩
  obtain ⟨d, hd, hu⟩ := declared_of_shares hshares hprepare
  exact hcomplete.resolved hE' hhands hd hu

section List

variable {customs : Customs} {n : Nat} {r : RunnerId} {input : RunInput}

/-- **Runs of one plan, one after another**, have each resolved what is shared to itself. -/
theorem resolved_of_runs (hmay : w.mayRun r input.overrides) (times : List Unit) {vs : List Value}
    (hruns : (times.mapM fun _ => evaluateRun (.watched customs n) r p input) w =
      ((.ok vs, w'), marks)) (hmild : Mild marks) :
    ∃ runs : List (World × EvaluationId × Plan), runs.length = times.length ∧ ∀ x ∈ runs,
      (∃ s, .begins x.2.1 x.2.2 s none ∈ marks) ∧
        ∀ name u, x.1.Shares input.overrides x.2.2 name u → w'.Resolved x.2.1 name u := by
  have hO := Observed.charted_watched customs n
  induction times generalizing w vs marks with
  | nil => exact ⟨[], rfl, fun x hx => absurd hx List.not_mem_nil⟩
  | cons _ times ih =>
    rw [List.mapM_cons] at hruns
    obtain ⟨v, w₁, marks₁, later, hfirst, hothers, rfl⟩ := ok_of_bind hruns
    obtain ⟨vs', w₂, marks₂, marks₃, hrest, hpure, rfl⟩ := ok_of_bind hothers
    cases hpure
    obtain ⟨hmild₁, hmild₂⟩ := mild_append.mp hmild
    have hmild₂ := (mild_append.mp hmild₂).1
    have hupheld : w.Upheld w₁ := by
      have hfollows := follows_evaluateRun hO.follows hmay p
      rw [Follows, hfirst] at hfollows
      exact (hfollows hmild₁ : w.Charts marks₁ w₁).upheld
    have hlater : w₁.Upheld w' := by
      have hfollows := follows_mapM (L := .charts) times fun _ _ w₃ h₃ =>
        follows_evaluateRun hO.follows (World.mayRun_upheld (World.mayRun_upheld hmay hupheld) h₃) p
      rw [Follows, hrest] at hfollows
      exact (hfollows hmild₂ : w₁.Charts marks₂ w').upheld
    obtain ⟨runs, hlength, hall⟩ := ih (World.mayRun_upheld hmay hupheld) hrest hmild₂
    -- The evaluator is looked up first, and then its evaluation begins in the same world.
    obtain ⟨ev, hev, _⟩ := Option.any_eq_true _ _ |>.mp hmay
    rw [evaluateRun, silent_bind_ok (World.execute_evaluatorOf? hev)] at hfirst
    obtain ⟨e, plan, s, after, rfl, hresolved⟩ := resolved_of_evaluate customs n hfirst hmild₁
    refine ⟨(w, e, plan) :: runs, congrArg (· + 1) hlength, List.forall_mem_cons.mpr
      ⟨⟨⟨s, by simp⟩, fun name u hshares => (hresolved name u hshares).upheld hlater⟩,
        fun x hx => ?_⟩⟩
    obtain ⟨⟨s', hbegins⟩, hx'⟩ := hall x hx
    exact ⟨⟨s', List.mem_append_right _ (List.mem_append_left _ hbegins)⟩, hx'⟩

/-- **Every element of a list run** has resolved what is shared to itself. -/
theorem resolved_of_runList (hmay : w.mayRun r input.overrides) {count v : Value}
    (hrun : runList (.watched customs n) r count input w = ((.ok v, w'), marks))
    (hmild : Mild marks) :
    ∃ (k : Int) (runs : List (World × EvaluationId × Plan)), count.asInt? = some k ∧
      runs.length = k.toNat ∧ ∀ x ∈ runs, (∃ s, .begins x.2.1 x.2.2 s none ∈ marks) ∧
        ∀ name u, x.1.Shares input.overrides x.2.2 name u → w'.Resolved x.2.1 name u := by
  obtain ⟨_, w₁, marks₁, _, hcount, hrest, rfl⟩ := ok_of_bind hrun
  obtain ⟨p, w₂, marks₂, _, hcompile, hruns, rfl⟩ := ok_of_bind hrest
  have hstart : w.Upheld w₂ := by
    have hcounted : Idles (requireCount count) := keeps_requireCount count
    have h₁ := hcounted.halts w
    have h₂ := halts_compileFor (r := r) input w₁
    rw [show (requireCount count).execute w = _ from congrArg Prod.fst hcount] at h₁
    rw [show (do compile (← registryOf r) input.factory input.traits : Action PlanId).execute w₁ = _
      from congrArg Prod.fst hcompile] at h₂
    exact World.Upheld.trans h₁.upheld h₂.upheld
  rcases hk : count.asInt? with _ | k <;> rw [hk] at hruns
  · cases hruns
  obtain ⟨vs, w₃, marks₃, marks₄, helements, halloc, rfl⟩ := ok_of_bind hruns
  have hend : w₃.Upheld w' := by
    have hkept := (keeps_alloc (F := .unmoved) (.list vs)) w₃
    rw [show (alloc (.list vs)).execute w₃ = _ from congrArg Prod.fst halloc] at hkept
    exact hkept.upheld
  obtain ⟨hmild₃, _⟩ := mild_append.mp (mild_append.mp (mild_append.mp hmild).2).2
  obtain ⟨runs, hlength, hall⟩ :=
    resolved_of_runs (World.mayRun_upheld hmay hstart) _ helements hmild₃
  refine ⟨k, runs, rfl, by rw [hlength, List.length_replicate], fun x hx => ?_⟩
  obtain ⟨⟨s, hbegins⟩, hresolved⟩ := hall x hx
  exact ⟨⟨s, by simp [hbegins]⟩, fun name u hshares => (hresolved name u hshares).upheld hend⟩

end List

end Recorded

/-! ## 4. Sessions -/

namespace Activity

/-- **Shared values are handed over themselves.** Whatever a session does, and whatever functions that
are called do, level upon level, as long as nothing meddles with evaluation:

an evaluation that begins, be it for a run, for an element of a list run or for an association however
deep, has resolved what its plan shares to nothing but itself;
an evaluation that comes to a result has resolved to itself whatever is shared when it begins, by a
declaration or by an override that is shared or is no attribute value;
and so has the evaluation of every element of a list run that comes to a result. -/
theorem shared_values_kept (customs : Customs) (n : Nat) (session : Activity) {w w' : World}
    {marks : List Mark} {outcome : Except Failure Value}
    (hsession : session.watch (.watched customs n) w = ((outcome, w'), marks))
    (hmild : Mild marks) :
    (session.run (.tower customs n)).execute w = (outcome, w') ∧
    (∀ e plan s cause, .begins e plan s cause ∈ marks →
      ∃ E t, w'.Stands e E t [] ∧ E.plan = plan ∧ plan.Hands t) ∧
    (∀ m cause ev p strategy overrides constructor persistor w₀ v w₁ told,
      evaluate (.watched customs m) cause ev p strategy overrides constructor persistor w₀ =
        ((.ok v, w₁), told) → Mild told →
      ∃ e plan s after, told = (prepare (.watched customs m) ev p strategy overrides constructor
          persistor w₀).2 ++ .begins e plan s cause :: after ∧
        ∀ name u, w₀.Shares overrides plan name u → w₁.Resolved e name u) ∧
    ∀ m r count input w₀ v w₁ told, w₀.mayRun r input.overrides →
      Recorded.runList (.watched customs m) r count input w₀ = ((.ok v, w₁), told) → Mild told →
      ∃ (k : Int) (runs : List (World × EvaluationId × Plan)), count.asInt? = some k ∧
        runs.length = k.toNat ∧ ∀ x ∈ runs, (∃ s, .begins x.2.1 x.2.2 s none ∈ told) ∧
          ∀ name u, x.1.Shares input.overrides x.2.2 name u → w₁.Resolved x.2.1 name u := by
  have hdelivers := follows_watch (Observed.follows_watched .deliveries customs n) session w
  have hrecords := session.records_watch (O := .watched customs n) w
  rw [Recorded.Follows, hsession] at hdelivers
  rw [hsession, Observed.host_watched] at hrecords
  have hdelivers : w.Delivers marks w' := hdelivers hmild
  refine ⟨hrecords.symm, fun e plan s cause hbegins => ?_,
    fun m _ _ _ _ _ _ _ _ _ _ _ hrun htold => resolved_of_evaluate customs m hrun htold,
    fun m r count input w₀ v w₁ told hmay hrun htold => resolved_of_runList hmay hrun htold⟩
  obtain ⟨E, t, hE, -, hplan, hhands⟩ := hdelivers.begun e plan s cause hbegins
  exact ⟨E, t, hE, hplan, hhands⟩

end Activity

/-! ## 5. A byline -/

/-- An author has roles, and a post has an author, of whom it overrides the roles with an attribute
value that shares a value. -/
def Program.byline (shared : Value) (next : Value → Program) : Program :=
  .request (.newFixed shared true) fun fixed =>
  .request (.newDict [(.text "roles", fixed)]) fun overrides =>
  .request (.command (.defineFactory none (.text "author") .null .null none)) fun author =>
  .request (.command (.set author (.text "roles") (some .null) .null)) fun _ =>
  .request (.command (.defineFactory none (.text "post") .null .null none)) fun post =>
  .request (.command (.associate post (.text "author") .null none none (some overrides))) fun _ =>
  next overrides

/-- Builds a post, and looks whether the roles of its author are the value that was shared. -/
def Program.bylineBuilt (shared : Value) : Program :=
  .byline shared fun _ =>
  .request (.command (.run none { strategy := .text "build", factory := .text "post" })) fun post =>
  .request (.getAttr post "author") fun author =>
  .request (.getAttr author "roles") fun roles => .done (.bool (roles = shared))

/-- Builds an author by itself with the same overrides, and looks the same way. -/
def Program.authorBuilt (shared : Value) : Program :=
  .byline shared fun overrides =>
  .request (.command (.run none
    { strategy := .text "build", factory := .text "author", overrides := some overrides }))
    fun author =>
  .request (.getAttr author "roles") fun roles => .done (.bool (roles = shared))

/-- The world in which the plan of an author has been compiled, and overrides with shared roles are at
hand. -/
def World.byline : World :=
  (((Program.request (.newList []) fun roles => .byline roles fun _ =>
    .request (.command (.compile none (.text "author") none)) .done).run (.ofDepth 5)).execute
      fresh).2

namespace Activity

/-- An author is built with these overrides. -/
def byline : Activity :=
  .does (.evaluate ⟨0⟩ ⟨0⟩
    { strategy := .text "build", factory := .null, overrides := .object ⟨2⟩ }) .ends

/-- What comes of it, and what is told. -/
def toldOfByline : (Except Failure Value × World) × List Mark :=
  byline.watch (.watched .ofPrograms 5) World.byline

/-- The evaluation by itself, and what is told of it. -/
def bylineEvaluated : (Except Failure Value × World) × List Mark :=
  evaluate (.watched .ofPrograms 5) none ⟨0⟩ ⟨0⟩ (.text "build") (.object ⟨2⟩) none none World.byline

/-- The author that is built has the very list for its roles. -/
theorem shared_values_kept_byline : Mild toldOfByline.2 ∧
    (byline.run (.tower .ofPrograms 5)).execute World.byline = toldOfByline.1 ∧
    ∃ e plan s after, bylineEvaluated.2 = (prepare (.watched .ofPrograms 5) ⟨0⟩ ⟨0⟩ (.text "build")
        (.object ⟨2⟩) none none World.byline).2 ++ .begins e plan s none :: after ∧
      bylineEvaluated.1.2.Resolved e "roles" (.object ⟨0⟩) := by
  have hmild : Mild toldOfByline.2 := by decide +kernel
  have htold : Mild bylineEvaluated.2 := by decide +kernel
  have hvalue : bylineEvaluated.1.1 = .ok (.object ⟨13⟩) := by decide +kernel
  have hentries : World.byline.entries? (.object ⟨2⟩) = some [(.text "roles", .object ⟨1⟩)] := by
    decide +kernel
  have hattribute : World.byline.heap.attribute? (.object ⟨1⟩) =
      some (.fixed (.object ⟨0⟩) true) := by decide +kernel
  obtain ⟨hrun, -, hevaluate, -⟩ := shared_values_kept .ofPrograms 5 byline
    (eq_of_outcome (r := toldOfByline) rfl) hmild
  obtain ⟨e, plan, s, after, hbegins, hresolved⟩ := hevaluate 5 none ⟨0⟩ ⟨0⟩ (.text "build")
    (.object ⟨2⟩) none none World.byline _ _ _ (eq_of_outcome (r := bylineEvaluated) hvalue) htold
  have hlast : lastOverride? [(.text "roles", .object ⟨1⟩)] "roles" = some (.object ⟨1⟩) := by
    decide +kernel
  have hheld : ∀ x ∈ [((.text "roles", .object ⟨1⟩) : Value × Value)], World.byline.Holds x.2 :=
    fun x hx => by
      cases List.mem_singleton.mp hx
      show (World.byline.heap.get? ⟨1⟩).isSome
      decide +kernel
  exact ⟨hmild, hrun.trans (Prod.eta _), e, plan, s, after, hbegins,
    hresolved "roles" _ (.given hentries hheld hlast hattribute)⟩

end Activity

/-- **An association copies what it overrides with**, shared or not. An author that is built for a post
has other roles than those that the post shares, and where these cannot be copied none is built at all.
An author that is built with the same overrides by itself has the very roles. -/
theorem byline_copied :
    let outcome (p : Program) := ((p.run (.ofDepth 5)).execute World.fresh).1
    outcome (.request (.newList []) .bylineBuilt) = .ok (.bool false) ∧
    outcome (.request (.newList []) .authorBuilt) = .ok (.bool true) ∧
    (outcome (.request (.newSealed "lock" false) .bylineBuilt)).isOk = false ∧
    outcome (.request (.newSealed "lock" false) .authorBuilt) = .ok (.bool true) := by
  decide +kernel

end TraitFactory
