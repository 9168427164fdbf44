import TraitFactory.Proofs.Counting
import TraitFactory.Proofs.Watching

/-!
# The discipline of reading

Whatever functions do with what they read, fail with and recover from, an evaluation reads in good
order: what is being computed is a list of declared names, none of them twice and none of which a
value is kept; what is kept stays; and what is computed again had only failed so far.
-/

namespace TraitFactory

open Action Recorded

/-! ## 1. Disciplined evaluations -/

/-- **What is told of an evaluation that reads in good order**, from where it stands to where it gets:
at every moment in between, what is active and what is kept is sound, and so is the nesting of what is
active. -/
structure Plan.Disciplined (plan : Plan) (e : EvaluationId) (active : List String)
    (t : Table Value) (marks : List Mark) (t' : Table Value) : Prop where
  sound : ∀ past, past <+: marks → ((t.reckoned active).after e past).Sound plan
  /-- No more reads are nested in one another than attributes are declared. -/
  nested : ∀ past, past <+: marks →
    ((t.reckoned active).after e past).active.length ≤ plan.names.eraseDups.length
  /-- What is active stays so until the end, -/
  enclosing : ∀ past, past <+: marks → active <+: ((t.reckoned active).after e past).active
  /-- and then nothing else is. -/
  restored : (t.reckoned active).after e marks = t'.reckoned active
  holds : t.Holds t'

theorem Plan.Computes.disciplined {plan : Plan} {e : EvaluationId} {active : List String}
    {t t' : Table Value} {marks : List Mark} (h : plan.Computes e active t marks t')
    (hsound : (t.reckoned active).Sound plan) : plan.Disciplined e active t marks t' where
  sound _ hpast := (h.sound_of_prefix hsound hpast).1
  nested _ hpast := (h.sound_of_prefix hsound hpast).1.length_le
  enclosing _ hpast := (h.sound_of_prefix hsound hpast).2
  restored := h.after_eq
  holds := h.holds

/-- Nothing is active and nothing is kept where an evaluation begins. -/
theorem Reckoning.sound_nothing (plan : Plan) :
    ((∅ : Table Value).reckoned []).Sound plan where
  nodup := .nil
  declared _ h := absurd h List.not_mem_nil
  once := .nil
  disjoint _ h := absurd h List.not_mem_nil

/-- The chain of a cycle: what is active from the name on, and the name again. -/
theorem Evaluation.chain_of_mem {active : List String} {name : String} (h : name ∈ active) :
    ∃ outer inner, active = outer ++ name :: inner ∧ name ∉ outer ∧
      chain active name = name :: inner ++ [name] := by
  obtain ⟨outer, inner, rfl, hfirst⟩ := List.eq_append_cons_of_mem h
  have houter : ∀ n ∈ outer, decide (n ≠ name) = true := fun n hn =>
    decide_eq_true fun heq => hfirst (heq ▸ hn)
  have hdrop : (outer ++ name :: inner).dropWhile (· ≠ name) = name :: inner := by
    rw [List.dropWhile_append_of_pos houter]
    exact List.dropWhile_cons_of_neg (by simp)
  exact ⟨outer, inner, rfl, hfirst, by rw [chain, hdrop]⟩

/-! ## 2. Reads -/

namespace Recorded

variable {O : Observed} {e : EvaluationId} {E : Evaluation} {w w' : World} {t : Table Value}
  {active : List String} {name : String} {marks : List Mark} {v : Value}

/-- What is being computed is not read: it is a cycle. -/
theorem read_active (h : w.Stands e E t active) (hdeclarations : E.declarations = none)
    (hsound : (t.reckoned active).Sound E.plan) (hname : name ∈ active) :
    read O e name w = ((.error (Failure.inFactory
      (.attributeCycle name (Evaluation.chain active name)) E.plan.factory), w), []) := by
  have hkept : t.get? name = none := by
    rw [← Option.not_isSome_iff_eq_none, Table.isSome_get?_iff]
    exact hsound.disjoint name hname
  rw [read_missing h hdeclarations hkept, if_pos hname]
  rfl

/-- **What has been read is kept.** -/
theorem kept_of_read (hO : O.Charted) (h : w.intact e)
    (hread : read O e name w = ((.ok v, w'), marks)) (hmild : Mild marks) :
    ∃ E t active, w'.Stands e E t active ∧ E.declarations = none ∧ t.get? name = some v := by
  obtain ⟨E, t, active, hE, hdeclarations⟩ := World.stands_of_intact h
  rcases hkept : t.get? name with _ | v'
  · rw [read_missing hE hdeclarations hkept] at hread
    by_cases hactive : name ∈ active
    · rw [if_pos hactive] at hread
      cases hread
    rw [if_neg hactive] at hread
    rcases hd : E.plan.declaration? name with _ | d <;> rw [hd] at hread
    · cases hread
    dsimp only at hread
    rw [silent_bind_ok (execute_activate hE)] at hread
    obtain ⟨outcome, w₁, marks₁, marks₂, hdone, hrest, rfl⟩ := ok_of_bind hread
    have hcompute := charted_compute (e := e) hO d (w := activated w e name)
    rcases hinner : compute O e d (activated w e name) with ⟨⟨outcome', w₂⟩, inner⟩
    rw [Charted, hinner] at hcompute
    rw [Recorded.attempt, Recorded.doing, hinner] at hdone
    cases hdone
    have hcharts := hcompute (mild_append.mp (mild_cons.mp (mild_append.mp hmild).1).2).1
    obtain ⟨t₁, hE₁, _⟩ := hcharts.standing _ _ _ _ (stands_activated hE) hdeclarations
    rw [silent_bind_ok (execute_deactivate hE₁)] at hrest
    cases outcome' with
    | error failure => cases hrest
    | ok v' =>
      dsimp only at hrest
      rw [silent_bind_ok (execute_keepComputed (stands_deactivated hE₁))] at hrest
      cases hrest
      exact ⟨E, _, active, stands_withKept (stands_deactivated hE₁), hdeclarations,
        Table.get?_insert_self _ _ _⟩
  · rw [read_kept hE hkept] at hread
    cases hread
    exact ⟨E, t, active, hE, hdeclarations, hkept⟩

end Recorded

namespace Activity

/-- **The discipline of reading.** Whatever a session does with the attributes of evaluations, and
whatever functions that are called do, level upon level, as long as nothing meddles with evaluation:

an evaluation that stands in good order, and one that begins, reads in good order from then on, and
what was active when the session started is so when it ends;
what was read before it is read again as it was, through a context as well, and nothing is called;
and to read what is active is a cycle, told with what is active from its name on and the name again. -/
theorem reads_in_order (customs : Customs) (n : Nat) (session : Activity) {w w' : World}
    {marks : List Mark} {outcome : Except Failure Value}
    (hsession : session.watch (.watched customs n) w = ((outcome, w'), marks))
    (hmild : Mild marks) :
    (session.run (.tower customs n)).execute w = (outcome, w') ∧
    (∀ e E t active, w.Stands e E t active → E.declarations = none →
      (t.reckoned active).Sound E.plan →
      ∃ t', w'.Stands e E t' active ∧ E.plan.Disciplined e active t marks t') ∧
    (∀ before e plan s cause after, marks = before ++ .begins e plan s cause :: after →
      ∃ E t', w'.Stands e E t' [] ∧ E.plan = plan ∧ plan.Disciplined e [] ∅ after t') ∧
    (∀ w₀ e name v told, w₀.intact e → Mild told →
      Recorded.read (.watched customs n) e name w₀ = ((.ok v, w), told) →
      Recorded.read (.watched customs n) e name w' = ((.ok v, w'), []) ∧
        (w'.readsAttribute e name →
          (getAttr (.tower customs n) (.context e) name).execute w' = (.ok v, w'))) ∧
    ∀ e E t active name, w'.Stands e E t active → E.declarations = none →
      (t.reckoned active).Sound E.plan → name ∈ active →
      ∃ outer inner, active = outer ++ name :: inner ∧ name ∉ outer ∧
        Recorded.read (.watched customs n) e name w' = ((.error (Failure.inFactory
          (.attributeCycle name (name :: inner ++ [name])) E.plan.factory), w'), []) := by
  have hO := Observed.charted_watched customs n
  have hcharts := session.charted_watch hO w
  have hrecords := session.records_watch (O := .watched customs n) w
  rw [Charted, hsession] at hcharts
  rw [hsession, Observed.host_watched] at hrecords
  have hcharts := hcharts hmild
  refine ⟨hrecords.symm, fun e E t active hE hdeclarations hsound => ?_,
    fun before e plan s cause after heq => ?_, fun w₀ e name v told hintact htold hread => ?_,
    fun e E t active name hE hdeclarations hsound hname => ?_⟩
  · obtain ⟨t', hE', hcomputes⟩ := hcharts.standing e E t active hE hdeclarations
    exact ⟨t', hE', hcomputes.disciplined hsound⟩
  · obtain ⟨E, t', hE', _, hplan, hcomputes⟩ := hcharts.begun before e plan s cause after heq
    exact ⟨E, t', hE', hplan, hcomputes.disciplined (Reckoning.sound_nothing plan)⟩
  · obtain ⟨E, t, active, hE, hdeclarations, hkept⟩ := kept_of_read hO hintact hread htold
    obtain ⟨t', hE', hcomputes⟩ := hcharts.standing e E t active hE hdeclarations
    have hkept' := hcomputes.holds name v hkept
    refine ⟨read_kept hE' hkept', fun hreads => ?_⟩
    rw [execute_getAttr_context hreads]
    exact execute_read_kept hE' hkept'
  · obtain ⟨outer, inner, hactive, hfirst, hchain⟩ := Evaluation.chain_of_mem hname
    exact ⟨outer, inner, hactive, hfirst, hchain ▸ read_active hE hdeclarations hsound hname⟩

end Activity

/-! ## 3. How often an attribute is computed -/

namespace Recorded

variable {O : Observed} {e : EvaluationId} {E : Evaluation} {w w' : World} {t : Table Value}
  {active : List String} {marks : List Mark} {plan : Plan}

theorem Charted.tends {α : Type} {r : Recorded α} (h : Charted r w) : Tends (fun _ => True) r w :=
  fun hmild => ⟨(h hmild).upheld, trivial⟩

/-- **Once all attributes have been resolved** a value of each is kept. -/
theorem complete_of_resolve (hO : O.Charted) (hE : w.Stands e E t active)
    (hdeclarations : E.declarations = none) {values : Table Value}
    (h : resolve O e w = ((.ok values, w'), marks)) (hmild : Mild marks) : w'.Complete e := by
  have htale : Tale fun _ => True := ⟨trivial, fun _ _ => trivial⟩
  have hnames : (do namesToResolve (← getEvaluation e) : Action (List String)).execute w =
      (.ok E.plan.names, w) :=
    execute_names (E := { E with values := .own t, active := .own active }) hE hdeclarations
  have hyields := yields_resolving htale (O := O) hE hdeclarations hnames
    (fun name w₁ h₁ => by
      obtain ⟨t₁, hE₁, _⟩ := h₁.stands hE
      exact yields_read hE₁ hdeclarations htale (fun d => (charted_compute hO d).tends) trivial
        fun _ => trivial)
    (fun _ => trivial) fun _ _ => trivial
  rw [Yields, h] at hyields
  exact hyields.2 hmild values rfl

/-- An evaluation that has come to its end is complete. -/
theorem complete_of_lifecycle (hO : O.Charted) (hE : w.Stands e E t active)
    (hdeclarations : E.declarations = none) {ev : EvaluatorId} {s : Strategy} {v : Value}
    (h : lifecycle O e ev plan s w = ((.ok v, w'), marks)) (hmild : Mild marks) :
    w'.Complete e := by
  obtain ⟨values, w₁, marks₁, marks₂, hresolve, hrest, rfl⟩ := ok_of_bind h
  obtain ⟨hmild₁, hmild₂⟩ := mild_append.mp hmild
  have hlater := charted_afterwards e w₁ plan hO ev s values
  rw [Charted, hrest] at hlater
  exact (complete_of_resolve hO hE hdeclarations hresolve hmild₁).upheld (hlater hmild₂).upheld

theorem eq_of_outcome {α : Type} {r : (Except Failure α × World) × List Mark}
    {outcome : Except Failure α} (h : r.1.1 = outcome) : r = ((outcome, r.1.2), r.2) :=
  Prod.ext (Prod.ext h rfl) rfl

/-- **How often attributes are computed.** When an evaluation of a plan comes to a result, each declared
attribute has been computed just once, and nothing else has been. It is attempted once more for each
attempt that fails, and not any more when it has been computed. Whatever functions do, so it is as long
as nothing meddles with evaluation. -/
theorem computes_of_evaluate (customs : Customs) (n : Nat) {ev : EvaluatorId} {p : PlanId}
    {strategy overrides v : Value} {constructor persistor : Option Value}
    {cause : Option (EvaluationId × Association)}
    (hrun : evaluate (.watched customs n) cause ev p strategy overrides constructor persistor w =
      ((.ok v, w'), marks)) (hmild : Mild marks) :
    (Action.evaluate (.tower customs n) ev p strategy overrides constructor persistor).execute w =
      (.ok v, w') ∧
    ∃ e plan s after, marks = (prepare (.watched customs n) ev p strategy overrides constructor
        persistor w).2 ++ .begins e plan s cause :: after ∧ ∀ name,
      after.count (.ends e (.computes name) .done) = (if name ∈ plan.names then 1 else 0) ∧
      after.count (.starts e (.computes name)) =
        after.count (.ends e (.computes name) .done) + after.countP (Mark.fails e name) ∧
      ∀ past rest, after = past ++ .starts e (.computes name) :: rest →
        .ends e (.computes name) .done ∉ past := by
  have hO := Observed.charted_watched customs n
  have hrecords := records_evaluate (O := .watched customs n) cause ev p strategy overrides
    constructor persistor w
  rw [hrun, Observed.host_watched] at hrecords
  refine ⟨hrecords.symm, ?_⟩
  obtain ⟨⟨s, plan, e⟩, w₁, before, later, hprepare, hrest, rfl⟩ := ok_of_bind hrun
  obtain ⟨_, w₂, told, after, htell, hlifecycle, rfl⟩ := ok_of_bind hrest
  cases htell
  obtain ⟨E, hE, hfresh, rfl⟩ := stands_of_prepare hprepare
  have hafter := (mild_cons.mp (mild_append.mp hmild).2).2
  have hcharts := charted_lifecycle E.plan hO hE hfresh ev s
  rw [Charted, hlifecycle] at hcharts
  obtain ⟨t', hE', hcomputes⟩ := (hcharts hafter).standing e E ∅ [] hE hfresh
  dsimp only at hE' hcomputes
  have hcomplete := complete_of_lifecycle hO hE hfresh hlifecycle hafter
  refine ⟨e, E.plan, s, after, ?_, fun name => ?_⟩
  · rw [hprepare]
    rfl
  · have hsound := Reckoning.sound_nothing E.plan
    have hstarts := hcomputes.count_starts name
    refine ⟨?_, hstarts, fun past rest => hcomputes.done_not_mem hsound⟩
    split
    · rename_i hname
      -- A value of it is kept in the end, as often as it has been computed.
      obtain ⟨E', t₁, active₁, hE₁, _, hall⟩ := hcomplete
      have hsame := Option.some.inj (hE'.symm.trans hE₁)
      have hplan : E.plan = E'.plan := (congrArg Evaluation.plan hsame :)
      cases hE'.values_eq hE₁
      have hkept : name ∈ t'.keys := (Table.isSome_get?_iff _ _).mp (hall name (hplan ▸ hname))
      have hcount := Reckoning.count_kept_after e ((∅ : Table Value).reckoned []) after name
      rw [hcomputes.after_eq] at hcount
      have hpos : 0 < t'.keys.count name := List.count_pos_iff.mpr hkept
      have hnone : ((∅ : Table Value).reckoned []).kept.count name = 0 := rfl
      have hle := hcomputes.count_done_le hsound name
      have hreckoned : (t'.reckoned []).kept = t'.keys := rfl
      rw [hreckoned, hnone] at hcount
      omega
    · rename_i hname
      have hnever : after.count (.starts e (.computes name)) = 0 :=
        List.count_eq_zero.mpr fun hmem => hname (hcomputes.declared_of_starts hmem)
      omega

end Recorded

/-! ## 4. A quarrel -/

/-- A pair of attributes that read each other: the first does not care whether the second fails. -/
def Program.quarrel : Program :=
  .define { name := "careless" } (fun seen => .ask (.getAttr (seen.headD .null) "b") fun _ =>
    .done (.text "a")) fun careless =>
  .define { name := "careful" } (fun seen => .request (.getAttr (seen.headD .null) "a") fun _ =>
    .done (.text "b")) fun careful =>
  .request (.command (.defineFactory none (.text "pair") .null .null none)) fun pair =>
  .request (.command (.set pair (.text "a") none careless)) fun _ =>
  .request (.command (.set pair (.text "b") none careful)) fun _ =>
  .request (.command (.compile none (.text "pair") none)) .done

namespace World

/-- The world in which the plan of the pair has been compiled. -/
def quarrel : World := ((Program.quarrel.run (.ofDepth 5)).execute fresh).2

/-- The plan of the pair is being evaluated: the first attribute is kept, the second is active. -/
def quarrelling : World :=
  ((beginEvaluation (.ofDepth 5) ⟨0⟩ ⟨0⟩ .attributesFor).execute quarrel).2.modifyEvaluation ⟨0⟩
    fun E => { E with values := .own ⟨[("a", .text "a")]⟩, active := .own ["b"] }

/-- How often a function of a name has told that it was called. -/
def calls (w : World) (name : String) : Nat :=
  w.trace.toList.countP fun
    | .list (.text "call" :: .text called :: _) => called = name
    | _ => false

end World

namespace Recorded

/-- The evaluation of the pair, and what is told of it. -/
def quarrel : (Except Failure Value × World) × List Mark :=
  evaluate (.watched .ofPrograms 5) none ⟨0⟩ ⟨0⟩ (.text "attributes_for") .null none none
    World.quarrel

/-- **The second of the pair is computed twice**: for the first it fails, for they read each other, and
then it is computed again. Its function is called both times, and the evaluation comes to a result. -/
theorem quarrel_computed_twice : (quarrel.1.1.isOk ∧ Mild quarrel.2) ∧
    quarrel.2.count (.starts ⟨0⟩ (.computes "b")) = 2 ∧
    World.quarrel.calls "careful" = 0 ∧ quarrel.1.2.calls "careful" = 2 := by decide +kernel

theorem computes_of_evaluate_quarrel : ∃ e plan s after, Mild quarrel.2 ∧
    quarrel.2 = (prepare (.watched .ofPrograms 5) ⟨0⟩ ⟨0⟩ (.text "attributes_for") .null none none
      World.quarrel).2 ++ .begins e plan s none :: after ∧
    ∀ name, after.count (.ends e (.computes name) .done) = if name ∈ plan.names then 1 else 0 := by
  have hmild : Mild quarrel.2 := by decide +kernel
  have hvalue : quarrel.1.1 = .ok (.object ⟨5⟩) := by decide +kernel
  obtain ⟨_, e, plan, s, after, htold, hcount⟩ :=
    computes_of_evaluate .ofPrograms 5 (eq_of_outcome (r := quarrel) hvalue) hmild
  exact ⟨e, plan, s, after, hmild, htold, fun name => (hcount name).1⟩

end Recorded

namespace Activity

/-- Amid the quarrel the second is read again, and the pair is evaluated anew. -/
def quarrel : Activity :=
  .does (.read ⟨0⟩ "b") fun _ =>
  .does (.evaluate ⟨0⟩ ⟨0⟩ { strategy := .text "attributes_for", factory := .null }) .ends

/-- What comes of it, and what is told. -/
def toldOfQuarrel : (Except Failure Value × World) × List Mark :=
  quarrel.watch (.watched .ofPrograms 5) World.quarrelling

/-- What is evaluated amid the quarrel, apart from what it has come to. -/
def quarrelled : Evaluation := (World.quarrelling.evaluation? ⟨0⟩).getD
  ⟨⟨0⟩, .assemble "" .null [] [], .null, .null, .null, .own ∅, .own [], none, ∅⟩

theorem reads_in_order_quarrel : Mild toldOfQuarrel.2 ∧ ∃ t after,
    toldOfQuarrel.1.2.Stands ⟨0⟩ quarrelled t ["b"] ∧
    quarrelled.plan.Disciplined ⟨0⟩ ["b"] ⟨[("a", .text "a")]⟩ toldOfQuarrel.2 t ∧
    (∃ E t', toldOfQuarrel.1.2.Stands ⟨1⟩ E t' [] ∧
      quarrelled.plan.Disciplined ⟨1⟩ [] ∅ after t') ∧
    Recorded.read (.watched .ofPrograms 5) ⟨0⟩ "a" toldOfQuarrel.1.2 =
      ((.ok (.text "a"), toldOfQuarrel.1.2), []) ∧
    ∃ place, (Recorded.read (.watched .ofPrograms 5) ⟨0⟩ "b" toldOfQuarrel.1.2).1.1 =
      .error (Failure.inFactory (.attributeCycle "b" ["b", "b"]) place) := by
  have hmild : Mild toldOfQuarrel.2 := by decide +kernel
  have hstands : World.quarrelling.Stands ⟨0⟩ quarrelled ⟨[("a", .text "a")]⟩ ["b"] := by
    show World.quarrelling.evaluation? ⟨0⟩ = _
    decide +kernel
  have hdeclarations : quarrelled.declarations = none := by decide +kernel
  have hnames : quarrelled.plan.names = ["a", "b"] := by decide +kernel
  have hsound : ((⟨[("a", .text "a")]⟩ : Table Value).reckoned ["b"]).Sound quarrelled.plan :=
    ⟨by decide, by rw [hnames]; decide, by decide, by decide⟩
  have hbegins : .begins ⟨1⟩ quarrelled.plan .attributesFor none ∈ toldOfQuarrel.2 := by
    decide +kernel
  obtain ⟨before, after, hmarks⟩ := List.append_of_mem hbegins
  have hread : Recorded.read (.watched .ofPrograms 5) ⟨0⟩ "a" World.quarrelling =
      ((.ok (.text "a"), World.quarrelling), []) := read_kept hstands rfl
  obtain ⟨_, hstanding, hbegun, hagain, hcycle⟩ := reads_in_order .ofPrograms 5 quarrel
    (eq_of_outcome (r := toldOfQuarrel) rfl) hmild
  obtain ⟨t, hE, hdisciplined⟩ := hstanding _ _ _ _ hstands hdeclarations hsound
  obtain ⟨E, t', hE', _, hdisciplined'⟩ := hbegun before ⟨1⟩ _ _ _ after hmarks
  have hsound' := hdisciplined.sound _ List.prefix_rfl
  rw [hdisciplined.restored] at hsound'
  obtain ⟨outer, inner, heq, hfirst, hchain⟩ := hcycle _ _ _ _ "b" hE hdeclarations hsound'
    (List.mem_singleton.mpr rfl)
  have hintact : World.quarrelling.intact ⟨0⟩ := by decide +kernel
  refine ⟨hmild, t, after, hE, hdisciplined, ⟨E, t', hE', hdisciplined'⟩,
    (hagain _ _ _ _ [] hintact (by decide) hread).1, quarrelled.plan.factory, ?_⟩
  obtain ⟨rfl, rfl⟩ : outer = [] ∧ inner = [] := by
    cases outer with
    | nil => exact ⟨rfl, (List.cons.inj heq).2.symm⟩
    | cons n outer => cases outer <;> cases (List.cons.inj heq).2
  rw [hchain]
  rfl

end Activity

end TraitFactory
