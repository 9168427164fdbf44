import TraitFactory.Proofs.Course
import TraitFactory.Proofs.MildReads

/-!
# Nested runs

An association is built by a run of its own, inside the run that it is read in. What is told of a
mild run is therefore a tree: while its attributes are resolved, it tells of the runs that it
starts, each from beginning to end, and what it does afterwards starts none. The strategy of each
run is set by the path of associations that leads to it.
-/

namespace TraitFactory

open Action

/-! ## 1. Strategies along a path -/

/-- Whether an association starts a run in a run under a strategy. -/
def Association.starts (a : Association) (s : Strategy) : Bool :=
  a.strategy.isSome || s ≠ .attributesFor

/-- The strategy of the run that an association starts in a run under a strategy. -/
def Association.inherits (a : Association) (follow : Bool) (s : Strategy) : Strategy :=
  a.strategy.getD (if follow then s else .create)

/-- **The strategy of the run that a path of associations leads to**: where associations follow
their surroundings, that of the last association of the path that has one, or else that with which
the path begins; otherwise that of the last association, or `create`. -/
def Strategy.along (root : Strategy) (follow : Bool) (path : List Association) : Strategy :=
  if follow then (path.reverse.findSome? (·.strategy)).getD root
  else (path.getLast?.map fun a => a.strategy.getD .create).getD root

theorem Strategy.along_nil (root : Strategy) (follow : Bool) : root.along follow [] = root := by
  cases follow <;> rfl

/-- Each association of the path passes on what it inherits. -/
theorem Strategy.along_append (root : Strategy) (follow : Bool) (path : List Association)
    (a : Association) :
    root.along follow (path ++ [a]) = a.inherits follow (root.along follow path) := by
  unfold along Association.inherits
  cases follow with
  | true =>
    rw [if_pos rfl, if_pos rfl, if_pos rfl, List.reverse_append, List.reverse_singleton,
      List.singleton_append, List.findSome?_cons]
    cases a.strategy <;> rfl
  | false =>
    rw [if_neg Bool.false_ne_true, if_neg Bool.false_ne_true, List.getLast?_concat]
    rfl

/-- Where no association of a path has a strategy, the first one is passed on to the end. -/
theorem Strategy.along_of_none (root : Strategy) {path : List Association}
    (h : ∀ a ∈ path, a.strategy = none) : root.along true path = root := by
  have hnone : path.reverse.findSome? (·.strategy) = none :=
    List.findSome?_eq_none_iff.mpr fun a ha => h a (List.mem_reverse.mp ha)
  rw [along, if_pos rfl, hnone]
  rfl

/-! ## 2. What is told of nested runs -/

/-- Whether a mark tells of how an attribute of an evaluation is resolved. -/
def Mark.resolves (e : EvaluationId) : Mark → Bool
  | .starts e' (.resolves _) | .starts e' (.computes _) => e' = e
  | .ends e' (.resolves _) _ | .ends e' (.computes _) _ => e' = e
  | _ => false

/-- **What is told of an evaluation that follows the course of its plan**, as far as it gets. -/
def Plan.Followed (plan : Plan) (e : EvaluationId) (s : Strategy) (marks : List Mark) : Prop :=
  ∃ listed segments, ∃ outcome : Except Failure Value,
    marks = told e segments ∧ Through (plan.course listed s) outcome segments

/-- **What an evaluation at the end of a path tells while it resolves its attributes**: of these,
and of each run that it starts meanwhile, from beginning to end. A run tells first what it does
while it resolves its own attributes, and then what follows. -/
inductive Nests (root : Strategy) (follow : Bool) :
    List Association → EvaluationId → List Mark → Prop
  | nil {path : List Association} {e : EvaluationId} : Nests root follow path e []
  | own {path : List Association} {e : EvaluationId} {m : Mark} {rest : List Mark}
      (hown : m.resolves e) (hrest : Nests root follow path e rest) :
      Nests root follow path e (m :: rest)
  | run {path : List Association} {e e' : EvaluationId} {a : Association} {plan : Plan}
      {inner after rest : List Mark} (hstarts : a.starts (root.along follow path))
      (hinner : Nests root follow (path ++ [a]) e' inner)
      (hafter : Closing (root.along follow (path ++ [a])) e' after)
      (hcourse : plan.Followed e' (root.along follow (path ++ [a])) (inner ++ after))
      (hrest : Nests root follow path e rest) :
      Nests root follow path e
        (.begins e' plan (root.along follow (path ++ [a])) (some (e, a)) :: inner ++ after ++ rest)

section Telling

variable {root : Strategy} {follow : Bool} {path : List Association} {e : EvaluationId}
  {marks marks' : List Mark}

theorem Nests.append (h : Nests root follow path e marks) (h' : Nests root follow path e marks') :
    Nests root follow path e (marks ++ marks') := by
  induction h with
  | nil => exact h'
  | own hown _ ih => exact .own hown (ih h')
  | run hstarts hinner hafter hcourse _ _ ih =>
    rw [List.append_assoc]
    exact .run hstarts hinner hafter hcourse (ih h')

theorem tale_nests : Tale (Nests root follow path e) := ⟨.nil, .append⟩

theorem nests_single {m : Mark} (h : m.resolves e) : Nests root follow path e [m] := .own h .nil

/-- **What is told of a run** at the end of a path, from beginning to end, if it gets so far as to
begin. -/
def Tells (root : Strategy) (follow : Bool) (path : List Association)
    (cause : Option (EvaluationId × Association)) (marks : List Mark) : Prop :=
  marks = [] ∨ ∃ e plan inner after,
    marks = .begins e plan (root.along follow path) cause :: inner ++ after ∧
    Nests root follow path e inner ∧ Closing (root.along follow path) e after ∧
    plan.Followed e (root.along follow path) (inner ++ after)

/-- The run of an association is told of as a part of the run that starts it. -/
theorem Tells.nests {a : Association} (hstarts : a.starts (root.along follow path))
    (h : Tells root follow (path ++ [a]) (some (e, a)) marks) : Nests root follow path e marks := by
  rcases h with rfl | ⟨e', plan, inner, after, rfl, hinner, hafter, hcourse⟩
  · exact .nil
  · rw [← List.append_nil (_ :: inner ++ after)]
    exact .run hstarts hinner hafter hcourse .nil

end Telling

/-! ## 3. How evaluators are wired -/

/-- **How the associations of an evaluator are built**: through which runner, if through any, and
whether they follow their surroundings. -/
structure Wiring where
  evaluator : EvaluatorId
  settings : SettingsId
  runner : Option RunnerId
  follow : Bool

namespace Wiring

/-- What stands for the hook by which associations are built. -/
def Hook (c : Wiring) (v : Value) : Prop :=
  match c.runner with
  | none => v = .null
  | some r => ∃ serial, v = .method serial (.runner r) associationHook

/-- What says in every world whether associations follow their surroundings. -/
def Follows (c : Wiring) (v : Value) : Prop := ∀ w : World, w.isTrue v = c.follow

end Wiring

/-- **A world in which an evaluator is wired so.** -/
structure World.Wired (w : World) (c : Wiring) : Prop where
  evaluator : ∃ E, w.evaluator? c.evaluator = some E ∧ E.settings = .settings c.settings ∧
    c.Hook E.associate
  settings : ∃ S, w.settingsAt? c.settings = some S ∧ c.Follows S.useParentStrategy
  runner : ∀ r, c.runner = some r → ∃ R, w.runner? r = some R ∧
    R.evaluator = .evaluator c.evaluator

/-- **An evaluation that builds its associations so**, under a strategy. -/
structure Evaluation.Obeys (E : Evaluation) (c : Wiring) (s : Strategy) : Prop where
  declarations : E.declarations = none
  strategy : E.strategy = .keyword (.strategy s)
  follows : c.Follows E.useParentStrategy
  hook : c.Hook E.associate

/-- **A world in which an evaluation runs** under a strategy. -/
structure World.Runs (w : World) (c : Wiring) (s : Strategy) (e : EvaluationId) : Prop where
  wired : w.Wired c
  evaluation : ∃ E t active, w.Stands e E t active ∧ E.Obeys c s

namespace World

variable {w w' : World} {c : Wiring} {s : Strategy} {e : EvaluationId}

/-- Wires are not cut while evaluators are upheld and settings and runners stay as they are. -/
theorem Wired.grown (h : w.Wired c)
    (hevaluators : Grown Evaluator.Upheld w.evaluators w'.evaluators) (hsettings : Grown Eq w.settings w'.settings) (hrunners : Grown Eq w.runners w'.runners) :
    w'.Wired c := by
  obtain ⟨E, hE, hplace, hhook⟩ := h.evaluator
  obtain ⟨E', hE', hsame⟩ := hevaluators _ E hE
  obtain ⟨S, hS, hfollows⟩ := h.settings
  obtain ⟨S', hS', rfl⟩ := hsettings _ S hS
  refine ⟨⟨E', hE', hsame.1.trans hplace, hsame.2 ▸ hhook⟩, ⟨S, hS', hfollows⟩, fun r hr => ?_⟩
  obtain ⟨R, hR, hevaluator⟩ := h.runner r hr
  obtain ⟨R', hR', rfl⟩ := hrunners _ R hR
  exact ⟨R, hR', hevaluator⟩

theorem Wired.upheld (h : w.Wired c) (hupheld : w.Upheld w') : w'.Wired c :=
  h.grown hupheld.evaluators hupheld.settings hupheld.runners

theorem Runs.upheld (h : w.Runs c s e) (hupheld : w.Upheld w') : w'.Runs c s e := by
  obtain ⟨E, t, active, hE, hobeys⟩ := h.evaluation
  obtain ⟨t', hE', _⟩ := hupheld.stands hE
  exact ⟨h.wired.upheld hupheld, E, t', active, hE', hobeys⟩

/-- An evaluation still runs while it computes one more attribute. -/
theorem Runs.activated (h : w.Runs c s e) (name : String) :
    (Action.activated w e name).Runs c s e := by
  obtain ⟨E, t, active, hE, hobeys⟩ := h.evaluation
  exact ⟨⟨h.wired.evaluator, h.wired.settings, h.wired.runner⟩,
    E, t, active ++ [name], stands_activated hE, hobeys⟩

end World

/-! ## 4. What an association asks for -/

theorem Evaluation.Obeys.strategyFor {E : Evaluation} {c : Wiring} {s : Strategy}
    (h : E.Obeys c s) (w : World) (a : Association) :
    E.strategyFor (w.isTrue E.useParentStrategy) a =
      if a.starts s then some (.keyword (.strategy (a.inherits c.follow s))) else none := by
  rw [Evaluation.strategyFor, h.follows w, h.strategy, Association.starts, Association.inherits]
  cases a.strategy with
  | some s' => rfl
  | none => cases s <;> cases c.follow <;> rfl

/-- A strategy is a matter of neither the values nor the attributes being worked out. -/
theorem Evaluation.strategyFor_with (E : Evaluation) (t : Table Value) (active : List String)
    (follows : Bool) (a : Association) :
    ({ E with values := .own t, active := .own active } : Evaluation).strategyFor follows a =
      E.strategyFor follows a := rfl

namespace Action

variable {w w' : World} {c : Wiring} {s : Strategy} {e : EvaluationId} {d : Declaration}
  {a : Association}

theorem adds_request? (e : EvaluationId) (d : Declaration) (a : Association) :
    Adds (request? e d a) := by
  refine keeps_bind (keeps_getEvaluation e) fun evaluation => keeps_bind keeps_get fun w => ?_
  split
  · exact keeps_pure _
  · split
    · exact keeps_fail _
    · exact keeps_bind (keeps_entriesOf _) fun _ => keeps_bind (keeps_alloc _) fun _ =>
        keeps_bind (adds_copy _) fun _ => keeps_bind (keeps_lasting _ _ _) fun _ =>
        keeps_pure _

theorem upholds_request? (e : EvaluationId) (d : Declaration) (a : Association) :
    Upholds (request? e d a) := (adds_request? e d a).upholds

/-- Where only attributes are wanted, an association without a strategy asks for nothing. -/
theorem request?_of_not_starts (h : w.Runs c s e) (ha : a.starts s = false) :
    (request? e d a).execute w = (.ok none, w) := by
  obtain ⟨E, t, active, hE, hobeys⟩ := h.evaluation
  have hnone := hobeys.strategyFor w a
  rw [ha, if_neg Bool.false_ne_true] at hnone
  rw [request?, execute_bind_ok (execute_getEvaluation hE), execute_bind_ok (execute_get w)]
  dsimp only
  rw [Evaluation.strategyFor_with, hnone]
  rfl

/-- **What an association asks for**: a run of the runner under the strategy that it inherits. -/
theorem request_of_runs (h : w.Runs c s e) {request : Value × List Value}
    (hrequest : (request? e d a).execute w = (.ok (some request), w')) :
    a.starts s ∧ ∃ r serial factory traits o, c.runner = some r ∧
      request = (.method serial (.runner r) associationHook,
        [factory, traits, .object o, .keyword (.strategy (a.inherits c.follow s))]) := by
  obtain ⟨E, t, active, hE, hobeys⟩ := h.evaluation
  rcases hstarts : a.starts s with _ | _
  · rw [request?_of_not_starts h hstarts] at hrequest
    cases hrequest
  refine ⟨rfl, ?_⟩
  have hsome := hobeys.strategyFor w a
  rw [hstarts, if_pos rfl] at hsome
  rw [request?, execute_bind_ok (execute_getEvaluation hE), execute_bind_ok (execute_get w)]
    at hrequest
  dsimp only at hrequest
  rw [Evaluation.strategyFor_with, hsome] at hrequest
  dsimp only at hrequest
  have hhook := hobeys.hook
  rcases hrunner : c.runner with _ | r <;> rw [Wiring.Hook, hrunner] at hhook
  · rw [if_pos hhook] at hrequest
    cases hrequest
  · obtain ⟨serial, hmethod⟩ := hhook
    rw [hmethod, if_neg (by simp)] at hrequest
    obtain ⟨entries, w₁, _, hrequest⟩ := ok_of_execute_bind hrequest
    obtain ⟨table, w₂, halloc, hrequest⟩ := ok_of_execute_bind hrequest
    obtain ⟨overrides, w₃, hcopy, hrequest⟩ := ok_of_execute_bind hrequest
    obtain ⟨traits, w₄, _, hrequest⟩ := ok_of_execute_bind hrequest
    obtain ⟨o', rfl, ho'⟩ := object_of_alloc halloc
    obtain ⟨o, rfl⟩ := object_of_copy ho' hcopy
    cases hrequest
    exact ⟨r, serial, _, traits, o, rfl, rfl⟩

end Action

/-! ## 5. A run in its surroundings -/

/-- **Surroundings that heed a wiring**: as long as calls are mild, what is told of a call that is
handed a context is told of its evaluation, and of the run of an association all is told. -/
structure Observed.Heeds (O : Observed) (c : Wiring) (root : Strategy) : Prop where
  discreet : O.Discreet
  call : ∀ fn path e w, w.Runs c (root.along c.follow path) e →
    Recorded.Tends (Nests root c.follow path e) (O.call fn [.context e]) w
  associate : ∀ e a serial r factory traits o path w, w.Wired c → c.runner = some r →
    Recorded.Tends (Tells root c.follow (path ++ [a]) (some (e, a)))
      (O.associate e a (.method serial (.runner r) associationHook)
        [factory, traits, .object o, .keyword (.strategy (root.along c.follow (path ++ [a])))]) w

namespace Recorded

variable {α β : Type} {P : List Mark → Prop} {O : Observed} {c : Wiring} {root s : Strategy}
  {path : List Association} {e : EvaluationId} {E : Evaluation} {w w' : World}

/-- An action that tells nothing yields what it gives. -/
theorem yields_silent (hP : Tale P) {Q : α → World → Prop} {a : Action α} (ha : Upholds a)
    (hQ : ∀ x w', a.execute w = (.ok x, w') → Q x w') : Yields P Q (silent a) w :=
  ⟨tends_silent hP ha, fun _ x hx => hQ x _ (Prod.ext hx rfl)⟩

/-- What is done before anything is told leaves what is told as it is. -/
theorem tends_after_silent {a : Action α} {f : α → Recorded β} (ha : Upholds a) (hnil : P [])
    (hf : ∀ x w', a.execute w = (.ok x, w') → w.Upheld w' → Tends P (f x) w') :
    Tends P (silent a >>= f) w := by
  intro hmild
  have hupheld := ha w
  rcases hrun : a.execute w with ⟨failure | x, w'⟩ <;> rw [hrun] at hupheld
  · have hsilent : silent a w = ((.error failure, w'), []) := by rw [silent, hrun]
    rw [bind_error hsilent]
    exact ⟨hupheld, hnil⟩
  · rw [silent_bind_ok hrun] at hmild ⊢
    obtain ⟨hupheld', htold⟩ := hf x w' hrun hupheld hmild
    exact ⟨hupheld.trans hupheld', htold⟩

section Resolving

variable (hO : O.Heeds c root) (hruns : w.Runs c (root.along c.follow path) e)

include hO hruns

theorem tends_buildAssociation (d : Declaration) (a : Association) :
    Tends (Nests root c.follow path e) (buildAssociation O e d a) w := by
  refine tends_after_silent (upholds_request? e d a) .nil fun request w' hrequest hupheld => ?_
  cases request with
  | none => exact tends_pure tale_nests _
  | some request =>
    obtain ⟨hstarts, r, serial, factory, traits, o, hrunner, rfl⟩ := request_of_runs hruns hrequest
    dsimp only
    rw [← Strategy.along_append]
    exact (hO.associate e a serial r factory traits o path w' (hruns.wired.upheld hupheld)
      hrunner).imp fun _ htells => htells.nests hstarts

theorem tends_compute (d : Declaration) :
    Tends (Nests root c.follow path e) (compute O e d) w := by
  unfold compute
  cases d.value with
  | fixed v shared =>
    refine tends_silent tale_nests ?_
    split
    · exact keeps_pure _
    · exact upholds_copy v
  | computed fn =>
    refine tends_get_bind tale_nests ?_
    split
    · exact (tends_call hO.discreet fn (Nat.zero_le _) rfl).imp fun _ hnil => hnil ▸ .nil
    · exact hO.call fn path e w hruns
  | association a => exact tends_buildAssociation hO hruns d a

/-- **A read in a run** starts the runs of the associations that it computes. -/
theorem yields_read_running (name : String) :
    Yields (Nests root c.follow path e) (fun _ w' => w'.Settled e name) (read O e name) w := by
  obtain ⟨E, t, active, hE, hobeys⟩ := hruns.evaluation
  exact yields_read hE hobeys.declarations tale_nests
    (fun d => tends_compute hO (hruns.activated name) d)
    (nests_single (by simp [Mark.resolves])) fun _ => nests_single (by simp [Mark.resolves])

/-- **All attributes are resolved**: the evaluation is complete then. -/
theorem yields_resolve :
    Yields (Nests root c.follow path e) (fun _ w' => w'.Complete e) (resolve O e) w := by
  obtain ⟨E, t, active, hE, hobeys⟩ := hruns.evaluation
  have hnames : (do namesToResolve (← getEvaluation e) : Action (List String)).execute w =
      (.ok E.plan.names, w) :=
    execute_names (E := { E with values := .own t, active := .own active }) hE hobeys.declarations
  exact yields_resolving tale_nests hE hobeys.declarations hnames
    (fun name w₁ h₁ => yields_read_running hO (hruns.upheld h₁) name)
    (fun _ => nests_single (by simp [Mark.resolves])) fun _ _ => nests_single (by simp [Mark.resolves])

/-- **What is told of a run once it has begun**: what it does while its attributes are resolved, and
then what follows. -/
theorem tends_lifecycle (hE : w.evaluation? e = some E) (hfresh : E.Fresh) (ev : EvaluatorId) :
    Tends (fun marks => ∃ after, marks = (resolve O e w).2 ++ after ∧
        Nests root c.follow path e (resolve O e w).2 ∧
        Closing (root.along c.follow path) e after ∧
        E.plan.Followed e (root.along c.follow path) marks)
      (lifecycle O e ev E.plan (root.along c.follow path)) w := by
  intro hmild
  obtain ⟨listed, before, after, _, _, hmarks, hthrough, _⟩ :=
    goesThrough_lifecycle (O := O) hE hfresh ev (root.along c.follow path)
  have hcourse : E.plan.Followed e (root.along c.follow path)
      (lifecycle O e ev E.plan (root.along c.follow path) w).2 :=
    ⟨listed, before ++ after, _, hmarks, hthrough⟩
  have hresolves := yields_resolve hO hruns
  have hP := tale_closing (root.along c.follow path) e
  rcases hresolve : resolve O e w with ⟨⟨failure | values, w₁⟩, marks⟩ <;>
    rw [Yields, Tends, hresolve] at hresolves
  · rw [lifecycle, bind_error hresolve] at hmild hcourse ⊢
    obtain ⟨hupheld, hnests⟩ := hresolves.1 hmild
    exact ⟨hupheld, [], (List.append_nil _).symm, hnests, hP.nil, hcourse⟩
  · rw [lifecycle, bind_ok hresolve] at hmild hcourse ⊢
    obtain ⟨hmild₁, hmild₂⟩ := mild_append.mp hmild
    obtain ⟨hupheld, hnests⟩ := hresolves.1 hmild₁
    have hcomplete : w₁.Complete e := hresolves.2 hmild₁ values rfl
    have hafter : Tends (Closing (root.along c.follow path) e) (do
        let attributes ← silent (Parts.dict (values.entries.map fun a => (.text a.1, a.2)))
        if root.along c.follow path = .attributesFor then return attributes
        else
          let v ← constructWith O e E.plan attributes
          (root.along c.follow path).stages.forM (perform O e ev E.plan attributes v)
          return v) w₁ := by
      refine tends_silent_bind hP (keeps_alloc _) fun attributes w₂ h₂ => ?_
      split
      · exact tends_pure hP _
      · rename_i hs
        exact tends_afterwards hO.discreet hs (hcomplete.upheld h₂) ev attributes
    obtain ⟨hupheld', hclosing⟩ := hafter hmild₂
    exact ⟨hupheld.trans hupheld', _, rfl, hnests, hclosing, hcourse⟩

end Resolving

/-! ## 6. Beginning a run -/

theorem execute_getEvaluator {ev : EvaluatorId} {evaluator : Evaluator}
    (h : w.evaluator? ev = some evaluator) : (getEvaluator ev).execute w = (.ok evaluator, w) := by
  rw [getEvaluator, execute_bind_ok (execute_get w), h]
  rfl

theorem execute_getSettings {id : SettingsId} {settings : RunnerSettings}
    (h : w.settingsAt? id = some settings) : (getSettings id).execute w = (.ok settings, w) := by
  rw [getSettings, execute_bind_ok (execute_get w), h]
  rfl

theorem execute_evaluatorOf {r : RunnerId} (h : w.Wired c) (hr : c.runner = some r) :
    (evaluatorOf r).execute w = (.ok c.evaluator, w) := by
  obtain ⟨R, hR, hevaluator⟩ := h.runner r hr
  have hrunner : (getRunner r).execute w = (.ok R, w) := by
    rw [getRunner, execute_bind_ok (execute_get w), hR]
    rfl
  rw [evaluatorOf, execute_bind_ok hrunner, hevaluator]
  rfl

/-- A new evaluation is put behind all that there are. -/
theorem upholds_newEvaluation (E : Evaluation) : Upholds (newEvaluation E) := fun w =>
  { World.Upheld.refl w with evaluations := (World.Upheld.refl w).evaluations.push E }

theorem yields_newEvaluation (h : w.Wired c) (hobeys : E.Obeys c s)
    (hE : E = { E with values := .own ∅, active := .own [] }) :
    Yields (· = []) (fun e w' => w'.Runs c s e) (silent (newEvaluation E)) w := by
  refine yields_silent tale_nil (upholds_newEvaluation E) fun e w' hnew => ?_
  have hupheld := upholds_newEvaluation E w
  rw [hnew] at hupheld
  cases hnew
  refine ⟨h.upheld hupheld, E, ∅, [], ?_, hobeys⟩
  rw [World.Stands, ← hE]
  exact Array.getElem?_push_size

/-- A new evaluation of a wired evaluator runs. -/
theorem yields_beginEvaluation (h : w.Wired c) (p : PlanId) (s : Strategy) :
    Yields (· = []) (fun e w' => w'.Runs c s e) (beginEvaluation O c.evaluator p s) w := by
  obtain ⟨E, hE, hsettings, hhook⟩ := h.evaluator
  rw [Yields, Tends, beginEvaluation, silent_bind_ok (execute_getEvaluator hE)]
  have hrest : Yields (· = []) (fun e w' => w'.Runs c s e) (do
      let plan ← silent (getPlan p)
      let follows ← followsParent O E.settings
      silent (newEvaluation
        { planId := p
          plan := plan
          strategy := .keyword (.strategy s)
          associate := E.associate
          useParentStrategy := follows })) w := by
    refine yields_silent_bind tale_nil (keeps_getPlan p) fun plan w₁ h₁ => ?_
    have hwired := h.upheld h₁
    obtain ⟨S, hS, hfollows⟩ := hwired.settings
    rw [hsettings, followsParent, bind_assoc, Yields, Tends,
      silent_bind_ok (execute_getSettings hS), pure_bind]
    exact yields_newEvaluation hwired ⟨rfl, rfl, hfollows, hhook⟩ rfl
  exact hrest

theorem idles_overridePairs (items : Value) :
    Idles (do (← walk items).mapM fun read => do bothParts (← read) :
      Action (List (Value × Value))) :=
  keeps_bind_of (walked_walk items).keeps (walked_walk items).reads fun _ h =>
    keeps_mapReads (fun _ hread => keeps_bind hread fun _ => keeps_bothParts _) h

section Beginning

variable (hO : O.Discreet)

include hO

theorem tends_overrideEntries {overrides : Value} (h : overrides.isExternal) :
    Tends (· = []) (overrideEntries O overrides) w := by
  refine tends_get_bind tale_nil ?_
  split
  · exact tends_pure tale_nil _
  · exact tends_pure tale_nil _
  · rw [getAttr_external O h]
    refine tends_silent_bind tale_nil
      (idles_getAttr O.host h (by decide) (by decide)).upholds fun f w₁ _ => ?_
    refine (tends_call hO f (Nat.zero_le _) rfl).bind tale_nil fun items _ _ => ?_
    exact tends_silent tale_nil (idles_overridePairs items).upholds

variable (hwired : w.Wired c)

include hwired

/-- **What has been prepared runs**, under the strategy that was named. -/
theorem yields_prepare (p : PlanId) (strategy : Value) {overrides : Value}
    (hoverrides : overrides.isExternal) (constructor persistor : Option Value) :
    Yields (· = []) (fun prepared w' => strategy.asText?.bind Strategy.find? = some prepared.1 ∧
        w'.Runs c prepared.1 prepared.2.2)
      (prepare O c.evaluator p strategy overrides constructor persistor) w := by
  have hnamed : Yields (· = []) (fun s _ => strategy.asText?.bind Strategy.find? = some s)
      (silent (strategyOf strategy)) w := by
    refine yields_silent tale_nil (keeps_strategyOf strategy) fun s w' hs => ?_
    unfold strategyOf at hs
    split at hs
    · cases hs
      assumption
    · obtain ⟨_, _, _, hs⟩ := ok_of_execute_bind hs
      cases hs
  refine hnamed.bind tale_nil fun s w₁ h₁ hs => ?_
  refine (tends_overrideEntries hO hoverrides).yieldsBind tale_nil fun entries w₂ h₂ => ?_
  refine yields_silent_bind tale_nil (idles_applyOverrides _ _ _ _).upholds fun p' w₃ h₃ => ?_
  refine yields_silent_bind tale_nil (keeps_getPlan p') fun plan w₄ h₄ => ?_
  have hwired₄ := hwired.upheld (((h₁.trans h₂).trans h₃).trans h₄)
  refine (yields_beginEvaluation hwired₄ p' s).bind tale_nil fun e w₅ _ hruns => ?_
  refine (tends_silent tale_nil (keeps_log _ _ _)).yieldsBind tale_nil fun _ w₆ h₆ => ?_
  exact yields_pure tale_nil ⟨hs, hruns.upheld h₆⟩

end Beginning

section Whole

variable (hO : O.Heeds c root) (hwired : w.Wired c)
  (cause : Option (EvaluationId × Association))

include hO hwired

/-- **What is told of a whole run** in its surroundings. -/
theorem tends_evaluate (p : PlanId) {strategy overrides : Value}
    (hstrategy : strategy.asText?.bind Strategy.find? = some (root.along c.follow path))
    (hoverrides : overrides.isExternal) (constructor persistor : Option Value) :
    Tends (Tells root c.follow path cause)
      (evaluate O cause c.evaluator p strategy overrides constructor persistor) w := by
  intro hmild
  have hprepared := yields_prepare hO.discreet hwired p strategy hoverrides constructor persistor
  rcases hprepare : prepare O c.evaluator p strategy overrides constructor persistor w with
    ⟨⟨failure | ⟨s, plan, e⟩, w₁⟩, marks⟩ <;> rw [Yields, Tends, hprepare] at hprepared
  · rw [evaluate, bind_error hprepare] at hmild ⊢
    obtain ⟨hupheld, hnil⟩ := hprepared.1 hmild
    exact ⟨hupheld, .inl hnil⟩
  · obtain ⟨E, hE, hfresh, rfl⟩ := evaluation_of_prepare hprepare
    have hevaluate : evaluate O cause c.evaluator p strategy overrides constructor persistor w =
        ((lifecycle O e c.evaluator E.plan s w₁).1,
          marks ++ .begins e E.plan s cause :: (lifecycle O e c.evaluator E.plan s w₁).2) := by
      rw [evaluate, bind_ok hprepare]
      rfl
    rw [hevaluate] at hmild ⊢
    obtain ⟨hmild₁, hmild₂⟩ := mild_append.mp hmild
    obtain ⟨hupheld, rfl⟩ := hprepared.1 hmild₁
    obtain ⟨hnamed, hruns⟩ := hprepared.2 hmild₁ _ rfl
    obtain rfl := Option.some.inj (hnamed.symm.trans hstrategy)
    obtain ⟨hupheld', after, htold, hnests, hclosing, hcourse⟩ :=
      tends_lifecycle hO hruns hE hfresh c.evaluator (mild_cons.mp hmild₂).2
    refine ⟨hupheld.trans hupheld', .inr ⟨e, E.plan, _, after, ?_, hnests, hclosing, ?_⟩⟩
    · rw [htold]
      rfl
    · rwa [← htold]

/-- **What is told of the run of an association.** -/
theorem tends_runAssociated {r : RunnerId} (hr : c.runner = some r) (factory traits : Value)
    (o : ObjectId) : Tends (Tells root c.follow path cause)
      (runAssociated O cause r factory traits (.object o)
        (.keyword (.strategy (root.along c.follow path)))) w := by
  refine tends_after_silent (idles_tellAssociation _ _ _ _).upholds (.inl rfl)
    fun _ w₁ _ h₁ => ?_
  refine tends_after_silent (keeps_bind (keeps_registryOf r) fun _ => (idles_compile _ _ _).upholds)
    (.inl rfl) fun p w₂ _ h₂ => ?_
  have hwired₂ := hwired.upheld (h₁.trans h₂)
  rw [Tends, silent_bind_ok (execute_evaluatorOf hwired₂ hr)]
  refine tends_evaluate hO hwired₂ cause p ?_ rfl none none
  cases root.along c.follow path <;> rfl

end Whole

end Recorded

end TraitFactory
