import TraitFactory.Proofs.Conduct
import TraitFactory.Proofs.Handing
import TraitFactory.Proofs.Tallying

/-!
# Keeping the books of evaluations

The books of what an evaluation does with its attributes and with the instance it has made: none of
it draws an id for the evaluation itself. What its associations ask for is tallied while it is not
complete, and once it has resolved its attributes, it is.
-/

namespace TraitFactory

open Action Recorded

/-! ## 1. Surroundings -/

/-- **Surroundings whose books are kept**: those of calls, and those of what associations ask for.
Instances of plans that are spared are made without tampering. -/
structure Observed.Books (O : Observed) (spared : Plan → Prop) (c : Wiring) : Prop where
  call : ∀ f arguments w, hookCall? f arguments = none → w.Wired c →
    Recorded.Books spared c.evaluator .whole (fun _ _ => True) (O.call f arguments) w
  associate : ∀ e a serial r factory traits o strategy w, w.Wired c → c.runner = some r →
    Recorded.Books spared c.evaluator (.asking e) (fun _ _ => True)
      (O.associate e a (.method serial (.runner r) associationHook)
        [factory, traits, .object o, strategy]) w
  leaves : ∀ plan, spared plan → plan.Leaves O.host

namespace Recorded

variable {α β : Type} {O : Observed} {spared : Plan → Prop} {c : Wiring} {s : Strategy}
  {scope : Scope} {e : EvaluationId} {w w' : World} {plan : Plan} {Q : α → World → Prop}

/-- What is tallied by itself is tallied in every scope. -/
theorem Books.of_whole {ev : EvaluatorId} {r : Recorded α} (h : Books spared ev .whole Q r w) :
    Books spared ev scope Q r w := fun _ hmild => by
  obtain ⟨ds, htally, hresult⟩ := h trivial hmild
  exact ⟨ds, htally.of_whole, hresult⟩

/-- Besides what is known of the result, there is what the result is. -/
theorem Books.result {ev : EvaluatorId} {r : Recorded α} {Q' : α → World → Prop}
    (h : Books spared ev scope Q r w)
    (hQ : ∀ x w', (r w).1 = (.ok x, w') → Q x w' → Q' x w') : Books spared ev scope Q' r w :=
  fun hscope hmild => by
    obtain ⟨ds, htally, hresult⟩ := h hscope hmild
    exact ⟨ds, htally, fun x hx => hQ x _ (Prod.ext hx rfl) (hresult x hx)⟩

/-- Nothing is known of the result of a silent action. -/
theorem books_saves {ev : EvaluatorId} {a : Action α} (h : Saves a) :
    Books spared ev scope (fun _ _ => True) (silent a) w := books_silent h fun _ _ _ => trivial

section Resolving

variable (hO : O.Books spared c)

include hO

theorem books_call (f : Value) {arguments : List Value} (hlength : arguments.length ≤ 2)
    (hwired : w.Wired c) :
    Books spared c.evaluator .whole (fun _ _ => True) (O.call f arguments) w :=
  hO.call f arguments w (hookCall?_of_length f hlength) hwired

variable (hruns : w.Runs c s e)

include hruns

/-! ## 2. Reading attributes -/

theorem books_buildAssociation (d : Declaration) (a : Association) :
    Books spared c.evaluator (.asking e) (fun _ _ => True) (buildAssociation O e d a) w := by
  refine books_silent_bind (adds_request? e d a).saves fun request w' hrequest hremains => ?_
  cases request with
  | none => exact books_pure trivial
  | some request =>
    obtain ⟨_, r, serial, factory, traits, o, hrunner, rfl⟩ := request_of_runs hruns hrequest
    exact hO.associate e a serial r factory traits o _ w' (hruns.wired.remains hremains) hrunner

theorem books_compute (d : Declaration) :
    Books spared c.evaluator (.asking e) (fun _ _ => True) (compute O e d) w := by
  unfold compute
  cases d.value with
  | fixed v shared =>
    refine books_saves ?_
    split
    · exact keeps_pure _
    · exact (adds_copy v).saves
  | computed fn =>
    refine books_get_bind ?_
    split
    · exact (books_call hO fn (by simp) hruns.wired).of_whole
    · exact (books_call hO fn (by simp) hruns.wired).of_whole
  | association a => exact books_buildAssociation hO hruns d a

omit hO hruns in
/-- Where a declared attribute has no value, an evaluation is not complete. -/
theorem not_complete {E : Evaluation} {t : Table Value} {active : List String} {name : String}
    {d : Declaration} (h : w.Stands e E t active) (hv : t.get? name = none)
    (hd : E.plan.declaration? name = some d) : ¬w.Complete e := by
  rintro ⟨E', t', active', hE', _, hall⟩
  obtain rfl := h.values_eq hE'
  have hplan := congrArg Evaluation.plan (Option.some.inj (h.symm.trans hE'))
  have hfound : E.plan.attributes.find? (·.name = name) = some d := hd
  have hsame : d.name = name := by simpa using List.find?_some hfound
  have hname : name ∈ E'.plan.names := by
    rw [← show E.plan = E'.plan from hplan, ← hsame]
    exact List.mem_map_of_mem (List.mem_of_find?_eq_some hfound)
  have hkept := hall name hname
  rw [hv] at hkept
  cases hkept

/-- An attribute is computed while its evaluation is not complete, and its value is kept. -/
theorem books_computing {E : Evaluation} {t : Table Value} {active : List String} {name : String}
    {d : Declaration} {note : Failure → Failure} (hE : w.Stands e E t active)
    (hv : t.get? name = none) (hd : E.plan.declaration? name = some d) :
    Books spared c.evaluator .whole (fun _ w' => w'.Settled e name) (do
      silent (activate e name)
      let outcome ← (doing e (.computes name) (compute O e d)).attempt
      silent (deactivate e)
      match outcome with
      | .ok v =>
        silent (keepComputed e name v)
        return v
      | .error failure => silent (throw (note failure))) w := by
  intro _ hmild
  have hbooks := (books_compute hO (w := activated w e name) (hruns.activated name) d).doing
    (Scope.tells_of_none (m := .starts e (.computes name)) rfl)
    fun ending => Scope.tells_of_none (m := .ends e (.computes name) ending) rfl
  rcases hrun : doing e (.computes name) (compute O e d) (activated w e name) with
    ⟨⟨outcome, w₁⟩, marks⟩
  have hattempt : (doing e (.computes name) (compute O e d)).attempt (activated w e name) =
      ((.ok outcome, w₁), marks) := by rw [Recorded.attempt, hrun]
  rw [Books, hrun] at hbooks
  dsimp only at hbooks
  rw [silent_bind_ok (execute_activate hE), bind_ok hattempt] at hmild ⊢
  have hbefore : (Scope.asking e).Within w := (Array.getElem?_eq_some_iff.mp hE).1
  have hwithin : (Scope.asking e).Within (activated w e name) :=
    hbefore.remains (World.unspent_activated w e name).toRemains
  obtain ⟨ds, htally, _⟩ := hbooks hwithin (mild_append.mp hmild).1
  obtain ⟨t₁, active₁, hE₁, _⟩ := htally.draws.remains.stands _ _ _ _ (stands_activated hE)
  obtain ⟨t₂, active₂, hE₂, _⟩ := (World.unspent_deactivated w₁ e).stands _ _ _ _ hE₁
  -- Before and after the computation nothing is told, and no id is drawn.
  have hwhole : ∀ {w'}, (deactivated w₁ e).Unspent w' →
      Tally spared c.evaluator .whole w (marks ++ []) ds w' := fun hw' => by
    have hfirst := (Tally.nil (World.unspent_activated w e name)).append hbefore htally
    have hall := hfirst.append hbefore
      (Tally.nil ((World.unspent_deactivated w₁ e).trans hw'))
    rw [List.append_nil ([] ++ ds), List.nil_append, List.nil_append] at hall
    exact hall.asked (not_complete hE hv hd)
  rw [silent_bind_ok (execute_deactivate hE₁)]
  cases outcome with
  | error failure => exact ⟨ds, hwhole (.refl _), fun _ h => by cases h⟩
  | ok v =>
    dsimp only
    rw [silent_bind_ok (execute_keepComputed hE₂)]
    refine ⟨ds, hwhole (World.unspent_withKept _ e name v), fun x _ =>
      ⟨E, _, active₂, stands_withKept hE₂, ?_⟩⟩
    rw [Table.get?_insert_self]
    rfl

/-- **The books of a read**: what an attribute asks for is tallied while the evaluation is not
complete, and what the read gives is kept. -/
theorem books_read (name : String) :
    Books spared c.evaluator .whole (fun _ w' => w'.Settled e name) (read O e name) w := by
  obtain ⟨E, t, active, hE, hobeys⟩ := hruns.evaluation
  rcases hv : t.get? name with _ | v
  · have hfails : ∀ failure : Failure, Books spared c.evaluator .whole
        (fun _ w' => w'.Settled e name) (silent (throw failure) : Recorded Value) w :=
      fun failure => books_silent (keeps_throw _) fun _ _ h => by cases h
    rw [Books, read_missing hE hobeys.declarations hv]
    by_cases hname : name ∈ active
    · rw [if_pos hname]
      exact hfails _
    · rw [if_neg hname]
      rcases hd : E.plan.declaration? name with _ | d
      · exact hfails _
      · exact books_computing hO hruns hE hv hd
  · rw [Books, read_kept hE hv]
    exact fun _ _ => ⟨[], .nil (.refl w), fun _ _ => ⟨E, t, active, hE, by rw [hv]; rfl⟩⟩

theorem books_readAmong (count : Nat) (name : String) :
    Books spared c.evaluator .whole (fun _ w' => w'.Settled e name)
      (readAmong O e count name) w := by
  refine (books_read hO hruns name).bind fun v w₁ _ hkept => ?_
  have hrest : ∀ a : Action (String × Value), Saves a →
      Books spared c.evaluator .whole (fun _ w' => w'.Settled e name) (silent a) w₁ :=
    fun a ha => fun _ _ => ⟨[], .nil (ha w₁), fun _ _ => hkept.remains (ha w₁).toRemains⟩
  refine books_silent_bind (keeps_getEvaluation e) fun evaluation w₂ hread _ => ?_
  obtain rfl : w₂ = w₁ := by
    have hsame := keeps_getEvaluation (F := .same) e w₁
    rw [hread] at hsame
    exact hsame
  refine books_get_bind ?_
  split
  · split
    · exact books_pure hkept
    · exact hrest _ (keeps_fail _)
  · exact books_pure hkept

/-- **The books of a resolution**: the evaluation is complete then. -/
theorem books_resolve :
    Books spared c.evaluator .whole (fun _ w' => w'.Complete e) (resolve O e) w := by
  obtain ⟨E, t, active, hE, hobeys⟩ := hruns.evaluation
  have hnames : (do namesToResolve (← getEvaluation e) : Action (List String)).execute w =
      (.ok E.plan.names, w) :=
    execute_names (E := { E with values := .own t, active := .own active }) hE hobeys.declarations
  rw [Books, resolve, silent_bind_ok hnames]
  have hdeed : ∀ name w₁, w.Remains w₁ → Books spared c.evaluator .whole
      (fun _ w' => w'.Settled e name)
      (doing e (.resolves name) (readAmong O e E.plan.names.length name)) w₁ := fun name w₁ h₁ =>
    (books_readAmong hO (hruns.remains h₁) _ name).doing
      (Scope.tells_of_none (m := .starts e (.resolves name)) rfl)
      fun ending => Scope.tells_of_none (m := .ends e (.resolves name) ending) rfl
  have hkeeps : ∀ name {w w' : World}, w.Settled e name → w.Remains w' → w'.Settled e name :=
    fun _ => World.Settled.remains
  have hall := books_mapM hkeeps E.plan.names fun name _ => hdeed name
  have hcomplete : Books spared c.evaluator .whole (fun _ w' => w'.Complete e)
      ((E.plan.names.mapM fun name =>
        doing e (.resolves name) (readAmong O e E.plan.names.length name)) >>= fun entries =>
          pure (⟨entries⟩ : Table Value)) w := by
    refine hall.bind fun entries w₁ h₁ hkept => books_pure ?_
    obtain ⟨t', active', hE', _⟩ := h₁.stands e E t active hE
    exact World.complete_of_settled hE' hobeys.declarations hkept
  exact hcomplete

end Resolving

/-! ## 3. What is done with an instance -/

section Instances

variable (hO : O.Books spared c)

include hO

theorem books_instanceOf (model : Value) (hwired : w.Wired c) :
    Books spared c.evaluator .whole (fun _ _ => True) (instanceOf O model) w := by
  unfold instanceOf
  split
  · exact books_saves (idles_construct _).saves
  · exact books_saves (idles_construct _).saves
  · exact books_call hO _ (by simp) hwired

theorem books_constructInstance (attributes : Value) (hwired : w.Wired c) :
    Books spared c.evaluator .whole (fun _ _ => True) (constructInstance O plan attributes) w := by
  refine books_silent_bind (keeps_alloc _) fun read w₁ _ h₁ => ?_
  split
  · exact (books_instanceOf hO _ (hwired.remains h₁)).bind fun _ _ _ _ => books_pure trivial
  · refine books_silent_bind (keeps_alloc _) fun snapshot w₂ hsnapshot h₂ => ?_
    cases hsnapshot
    refine ((books_call hO _ (by simp) (hwired.remains (h₁.trans h₂))).noting _).bind
      fun v _ _ _ => ?_
    exact books_silent_bind (keeps_readOf _) fun _ _ _ _ => books_pure trivial

omit hO in
theorem books_disable {ev : EvaluatorId} {v : Value} (hv : v.isExternal) {method : String}
    (hmethod : method ∈ persistenceMethods) :
    Books spared ev .whole (fun _ _ => True) (disable O e v method) w := by
  have hget : Idles (Action.getAttr O.host v method) := idles_getPersistence hv O.host hmethod
  refine Books.doingIf (Scope.tells_of_none (m := .starts e (.disables method)) rfl)
    (fun ending => Scope.tells_of_none (m := .ends e (.disables method) ending) rfl) ?_
    fun _ _ => books_saves (idles_refuse hv method).saves
  unfold hasAttr
  rw [getAttr_external O hv]
  refine (books_saves hget.saves).attempt.bind fun outcome _ _ _ => ?_
  split
  · exact books_pure trivial
  · refine books_saves ?_
    split
    · exact keeps_pure _
    · exact keeps_throw _

theorem books_persist {v : Value} (hv : v.isExternal) (hwired : w.Wired c) :
    Books spared c.evaluator .whole (fun _ _ => True) (persist O plan v) w := by
  unfold persist
  split
  · exact ((books_call hO _ (by simp) hwired).noting _).bind
      fun _ _ _ _ => books_pure trivial
  · have hget : Idles (Action.getAttr O.host v "save") :=
      idles_getAttr O.host hv (by decide) (by decide)
    have hfound : Books spared c.evaluator .whole (fun _ _ => True) (getAttrOr O v "save" .null)
        w := by
      unfold getAttrOr
      rw [getAttr_external O hv]
      refine (books_saves hget.saves).recover fun failure _ _ => books_saves ?_
      split
      · exact keeps_pure _
      · exact keeps_throw _
    refine hfound.bind fun save w₁ h₁ _ => ?_
    split
    · exact books_saves (keeps_bind keeps_get fun _ => keeps_throw _)
    · exact (books_call hO _ (by simp) (hwired.remains h₁)).bind
        fun _ _ _ _ => books_pure trivial

theorem books_invoke (hwired : w.Wired c) (fn v context : Value) :
    Books spared c.evaluator .whole (fun _ _ => True) (invoke O fn v context) w := by
  refine books_get_bind ?_
  split
  · exact books_call hO fn (by simp) hwired
  · exact books_call hO fn (by simp) hwired

theorem books_fire (hwired : w.Wired c) (event : Event) (v context : Value) :
    Books spared c.evaluator .whole (fun _ _ => True) (fire O e plan event v context) w := by
  refine books_forM _ fun callback _ w₁ h₁ => Books.doing
    (Scope.tells_of_none (m := .starts e (.calls callback)) rfl)
    (fun ending => Scope.tells_of_none (m := .ends e (.calls callback) ending) rfl) ?_
  exact ((books_invoke hO (hwired.remains h₁) callback.fn v context).noting _).bind
    fun _ _ _ _ => books_pure trivial

/-- Any stage but that which makes a stand-in. -/
theorem books_perform (hwired : w.Wired c) (ev : EvaluatorId) (attributes : Value) {v : Value}
    (hv : v.isExternal) {stage : Stage} (hstage : stage ≠ .stub) :
    Books spared c.evaluator .whole (fun _ _ => True)
      (perform O e ev plan attributes v stage) w := by
  cases stage with
  | stub => exact absurd rfl hstage
  | fire event => exact books_fire hO hwired event v _
  | persist =>
    exact (books_persist hO hv hwired).doing
      (Scope.tells_of_none (m := .starts e .persists) rfl)
      fun ending => Scope.tells_of_none (m := .ends e .persists ending) rfl

end Instances

end Recorded

end TraitFactory
