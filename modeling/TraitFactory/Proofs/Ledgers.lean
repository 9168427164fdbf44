import TraitFactory.Proofs.Charting

/-!
# Ledgers of evaluations

Whatever is called while an evaluation computes may read its attributes again, run plans of its own
or read what other evaluations compute. What is true of all evaluations throughout is therefore
shown once for all that an evaluator does: a ledger is a relation that is carried on from where
evaluations are not moved, over the beginning of an evaluation and over the computation of an
attribute, to all that is told. Charts are one such ledger.
-/

namespace TraitFactory

open Action

/-! ## 1. Ledgers -/

/-- **What a declaration hands over**: a value that is shared, it hands over itself. -/
def Declaration.Hands (d : Declaration) (v : Value) : Prop := ∀ u, d.value = .fixed u true → v = u

/-- **A ledger of evaluations**: a relation between worlds and what is told on the way from one to the
other, which holds as long as nothing is told and no evaluation is moved, is put together from one
way and the next, and is carried on where an evaluation begins and where one computes an attribute,
from what is entered while it does. -/
structure Ledger where
  rel : World → List Mark → World → Prop
  upheld {w w' : World} {marks : List Mark} (h : rel w marks w') : w.Upheld w'
  unmoved {w w' : World} (h : w.Unmoved w') : rel w [] w'
  trans {w w₁ w' : World} {marks marks' : List Mark} (h : rel w marks w₁) (h' : rel w₁ marks' w') :
    rel w (marks ++ marks') w'
  plain {w : World} {m : Mark} (hm : m.isPlain) : rel w [m] w
  begins {w : World} {e : EvaluationId} {E : Evaluation} {s : Strategy}
    {cause : Option (EvaluationId × Association)} (hE : w.Stands e E ∅ [])
    (hdeclarations : E.declarations = none) : rel w [.begins e E.plan s cause] w
  failed {w w₁ : World} {e : EvaluationId} {E : Evaluation} {t : Table Value}
    {active : List String} {name : String} {inner : List Mark} (hE : w.Stands e E t active)
    (hdeclarations : E.declarations = none) (hdeclared : name ∈ E.plan.names)
    (hactive : name ∉ active) (hkept : t.get? name = none)
    (hinner : rel (activated w e name) inner w₁) (failure : Failure) :
    rel w (.starts e (.computes name) :: inner ++ [.ends e (.computes name) (.failed failure)])
      (deactivated w₁ e)
  done {w w₁ : World} {e : EvaluationId} {E : Evaluation} {t : Table Value}
    {active : List String} {name : String} {inner : List Mark} {d : Declaration} {v : Value}
    (hE : w.Stands e E t active) (hdeclarations : E.declarations = none)
    (hdeclared : name ∈ E.plan.names) (hactive : name ∉ active) (hkept : t.get? name = none)
    (hinner : rel (activated w e name) inner w₁) (hd : E.plan.declaration? name = some d)
    (hv : d.Hands v) :
    rel w (.starts e (.computes name) :: inner ++ [.ends e (.computes name) .done])
      (withKept (deactivated w₁ e) e name v)

/-! ## 2. Recordings that follow a ledger -/

namespace Recorded

variable {α β : Type}

/-- **A recording that follows a ledger** as long as what it tells is mild. -/
def Follows (L : Ledger) (r : Recorded α) (w : World) : Prop :=
  Mild (r w).2 → L.rel w (r w).2 (r w).1.2

variable {L : Ledger} {w : World}

theorem follows_silent {a : Action α} (h : Halts a) : Follows L (silent a) w :=
  fun _ => L.unmoved (h w)

theorem follows_pure (x : α) : Follows L (pure x) w := follows_silent (keeps_pure x)

theorem follows_bind_of {r : Recorded α} {f : α → Recorded β} (h : Follows L r w)
    (hf : ∀ x w' marks, r w = ((.ok x, w'), marks) → Mild marks → w.Upheld w' →
      Follows L (f x) w') : Follows L (r >>= f) w := by
  intro hmild
  rcases hr : r w with ⟨⟨failure | x, w'⟩, marks⟩
  · rw [bind_error hr] at hmild ⊢
    rw [Follows, hr] at h
    exact h hmild
  · rw [bind_ok hr] at hmild ⊢
    rw [Follows, hr] at h
    obtain ⟨hmarks, hrest⟩ := mild_append.mp hmild
    have hentered := h hmarks
    exact L.trans hentered (hf x w' marks hr hmarks (L.upheld hentered) hrest)

theorem Follows.bind {r : Recorded α} {f : α → Recorded β} (h : Follows L r w)
    (hf : ∀ x w', w.Upheld w' → Follows L (f x) w') : Follows L (r >>= f) w :=
  follows_bind_of h fun x w' _ _ _ => hf x w'

theorem follows_silent_bind {a : Action α} {f : α → Recorded β} (ha : Halts a)
    (hf : ∀ x w', w.Upheld w' → Follows L (f x) w') : Follows L (silent a >>= f) w :=
  (follows_silent ha).bind hf

theorem follows_get_bind {f : World → Recorded β} (hf : Follows L (f w) w) :
    Follows L (silent get >>= f) w := hf

theorem Follows.attempt {r : Recorded α} (h : Follows L r w) : Follows L r.attempt w := h

theorem Follows.recover {r : Recorded α} {handle : Failure → Recorded α} (h : Follows L r w)
    (hh : ∀ failure w', w.Upheld w' → Follows L (handle failure) w') :
    Follows L (r.recover handle) w := by
  intro hmild
  rcases hr : r w with ⟨⟨failure | x, w'⟩, marks⟩ <;> rw [Follows, hr] at h <;>
    rw [Recorded.recover, hr] at hmild ⊢
  · obtain ⟨hmarks, hrest⟩ := mild_append.mp hmild
    have hentered := h hmarks
    exact L.trans hentered (hh failure w' (L.upheld hentered) hrest)
  · exact h hmild

theorem Follows.noting {r : Recorded α} (note : String) (h : Follows L r w) :
    Follows L (r.noting note) w := h.recover fun _ _ _ => follows_silent (keeps_throw _)

theorem follows_tell {m : Mark} (hm : m.isPlain) : Follows L (tell m) w :=
  fun _ => L.plain hm

section Deeds

variable {e : EvaluationId} {deed : Deed} (hstarts : (Mark.starts e deed).isPlain)
  (hends : ∀ ending, (Mark.ends e deed ending).isPlain)

include hstarts hends

theorem Follows.doing {r : Recorded α} (h : Follows L r w) : Follows L (r.doing e deed) w := by
  intro hmild
  obtain ⟨hmarks, _⟩ := mild_append.mp (mild_cons.mp hmild).2
  exact L.trans (L.trans (L.plain hstarts) (h hmarks)) (L.plain (hends _))

theorem Follows.doingIf {needed : Recorded Bool} {r : Recorded Unit} (h : Follows L needed w)
    (hr : ∀ w', w.Upheld w' → Follows L r w') : Follows L (Recorded.doingIf e deed needed r) w := by
  intro hmild
  rcases hneeded : needed w with ⟨⟨failure | b, w'⟩, marks⟩ <;> rw [Follows, hneeded] at h
  · rw [Recorded.doingIf, hneeded] at hmild ⊢
    obtain ⟨hmarks, _⟩ := mild_append.mp (mild_cons.mp hmild).2
    exact L.trans (L.trans (L.plain hstarts) (h hmarks)) (L.plain (hends _))
  · cases b with
    | true =>
      rw [Recorded.doingIf, hneeded] at hmild ⊢
      obtain ⟨hboth, _⟩ := mild_append.mp (mild_cons.mp hmild).2
      obtain ⟨hmarks, hrest⟩ := mild_append.mp hboth
      have hentered := h hmarks
      have hlater := hr w' (L.upheld hentered) hrest
      exact L.trans (L.trans (L.trans (L.plain hstarts) hentered) hlater) (L.plain (hends _))
    | false =>
      rw [Recorded.doingIf, hneeded] at hmild ⊢
      obtain ⟨hmarks, _⟩ := mild_append.mp (mild_cons.mp hmild).2
      exact L.trans (L.trans (L.plain hstarts) (h hmarks)) (L.plain (hends _))

end Deeds

theorem follows_mapM {f : α → Recorded β} (xs : List α)
    (h : ∀ x ∈ xs, ∀ w', w.Upheld w' → Follows L (f x) w') : Follows L (xs.mapM f) w := by
  induction xs generalizing w with
  | nil => exact follows_pure []
  | cons x xs ih =>
    rw [List.mapM_cons]
    refine (h x List.mem_cons_self w (.refl w)).bind fun y w₁ h₁ => ?_
    have hrest := ih fun x hx w₂ h₂ => h x (List.mem_cons_of_mem _ hx) w₂ (h₁.trans h₂)
    exact hrest.bind fun ys _ _ => follows_pure _

theorem follows_forM {f : α → Recorded Unit} (xs : List α)
    (h : ∀ x ∈ xs, ∀ w', w.Upheld w' → Follows L (f x) w') : Follows L (xs.forM f) w := by
  induction xs generalizing w with
  | nil => exact follows_pure ()
  | cons x xs ih =>
    refine (h x List.mem_cons_self w (.refl w)).bind fun _ w₁ h₁ => ?_
    exact ih fun x hx w₂ h₂ => h x (List.mem_cons_of_mem _ hx) w₂ (h₁.trans h₂)

end Recorded

/-- **Surroundings in which whatever is called follows a ledger.** -/
structure Observed.Follows (O : Observed) (L : Ledger) : Prop where
  call : ∀ f arguments w, Recorded.Follows L (O.call f arguments) w
  associate : ∀ e a f arguments w, Recorded.Follows L (O.associate e a f arguments) w

/-! ## 3. Reads -/

namespace Recorded

variable {L : Ledger} {O : Observed} {e : EvaluationId} {E : Evaluation} {w : World}
  {t : Table Value} {active : List String} {plan : Plan} (hO : O.Follows L)

include hO

theorem follows_compute (d : Declaration) : Follows L (compute O e d) w := by
  unfold compute
  cases d.value with
  | fixed v shared =>
    refine follows_silent ?_
    split
    · exact keeps_pure _
    · exact (adds_copy v).halts
  | computed fn =>
    refine follows_get_bind ?_
    split
    · exact hO.call fn [] w
    · exact hO.call fn [.context e] w
  | association a =>
    refine follows_silent_bind (adds_request? e d a).halts fun request w' _ => ?_
    cases request with
    | none => exact follows_pure _
    | some request => exact hO.associate e a _ _ w'

omit hO in
/-- A shared value is not computed but handed over. -/
theorem hands_of_compute {d : Declaration} {v : Value} {w' : World} {marks : List Mark}
    (h : compute O e d w = ((.ok v, w'), marks)) : d.Hands v := by
  intro u hu
  rw [compute, hu] at h
  cases h
  rfl

section Standing

variable (hE : w.Stands e E t active) (hdeclarations : E.declarations = none)

include hE hdeclarations

/-- **A read follows every ledger**: it computes only what is declared, neither active nor kept. -/
theorem follows_read (name : String) : Follows L (read O e name) w := by
  rcases hkept : t.get? name with _ | v
  · have hfails : ∀ failure : Failure, Follows L (silent (throw failure) : Recorded Value) w :=
      fun failure => follows_silent (keeps_throw _)
    rw [Follows, read_missing hE hdeclarations hkept]
    by_cases hactive : name ∈ active
    · rw [if_pos hactive]
      exact hfails _
    rw [if_neg hactive]
    rcases hd : E.plan.declaration? name with _ | d
    · exact hfails _
    have hdeclared : name ∈ E.plan.names := by
      have hname := List.find?_some hd
      exact of_decide_eq_true hname ▸ List.mem_map_of_mem (List.mem_of_find?_eq_some hd)
    have hcompute := follows_compute (e := e) hO d (w := activated w e name)
    rcases hinner : compute O e d (activated w e name) with ⟨⟨outcome, w₁⟩, inner⟩
    have hattempt : (doing e (.computes name) (compute O e d)).attempt (activated w e name) =
        ((.ok outcome, w₁), .starts e (.computes name) :: inner ++
          [.ends e (.computes name) (.of outcome)]) := by
      rw [Recorded.attempt, Recorded.doing, hinner]
    rw [Follows, hinner] at hcompute
    dsimp only
    rw [silent_bind_ok (execute_activate hE), bind_ok hattempt]
    intro hmild
    have hentered := hcompute (mild_append.mp (mild_cons.mp (mild_append.mp hmild).1).2).1
    obtain ⟨t₁, hE₁, _⟩ := (L.upheld hentered).stands (stands_activated hE)
    rw [silent_bind_ok (execute_deactivate hE₁)]
    cases outcome with
    | error failure =>
      have hfailed := L.failed hE hdeclarations hdeclared hactive hkept hentered failure
      exact L.trans hfailed (L.unmoved (Frame.unmoved.refl _))
    | ok v =>
      dsimp only
      rw [silent_bind_ok (execute_keepComputed (stands_deactivated hE₁))]
      have hdone := L.done hE hdeclarations hdeclared hactive hkept hentered hd
        (hands_of_compute hinner)
      exact L.trans hdone (L.unmoved (Frame.unmoved.refl _))
  · rw [Follows, read_kept hE hkept]
    exact fun _ => L.unmoved (Frame.unmoved.refl w)

theorem follows_readAmong (count : Nat) (name : String) :
    Follows L (readAmong O e count name) w := by
  refine (follows_read hO hE hdeclarations name).bind fun v w₁ _ => ?_
  refine follows_silent_bind (keeps_getEvaluation e) fun evaluation w₂ _ => follows_get_bind ?_
  split
  · split
    · exact follows_pure _
    · exact follows_silent (keeps_fail _)
  · exact follows_pure _

theorem follows_resolve : Follows L (resolve O e) w := by
  have hnames : (do namesToResolve (← getEvaluation e) : Action (List String)).execute w =
      (.ok E.plan.names, w) :=
    execute_names (E := { E with values := .own t, active := .own active }) hE hdeclarations
  rw [Follows, resolve, silent_bind_ok hnames]
  have hall : Follows L (E.plan.names.mapM fun name =>
      doing e (.resolves name) (readAmong O e E.plan.names.length name)) w :=
    follows_mapM _ fun name _ w₁ h₁ => by
      obtain ⟨t₁, hE₁, _⟩ := h₁.stands hE
      exact (follows_readAmong hO hE₁ hdeclarations _ name).doing rfl fun _ => rfl
  exact hall.bind fun _ _ _ => follows_pure _

end Standing

/-! ## 4. The lifecycle -/

theorem follows_instanceOf (model : Value) : Follows L (instanceOf O model) w := by
  unfold instanceOf
  split
  · exact follows_silent (idles_construct _).halts
  · exact follows_silent (idles_construct _).halts
  · exact hO.call _ _ _

theorem follows_constructInstance (attributes : Value) :
    Follows L (constructInstance O plan attributes) w := by
  refine follows_silent_bind (keeps_alloc _) fun read w₁ _ => ?_
  split
  · exact (follows_instanceOf hO _).bind fun v _ _ => follows_pure _
  · refine follows_silent_bind (keeps_alloc _) fun snapshot w₂ _ => ?_
    refine ((hO.call _ _ _).noting _).bind fun v _ _ => ?_
    exact follows_silent_bind (keeps_readOf _) fun _ _ _ => follows_pure _

theorem follows_made (attributes : Value) : Follows L (made O e plan attributes) w :=
  (follows_constructInstance hO attributes).bind fun _ _ _ => (follows_tell rfl).bind fun _ _ _ =>
    follows_silent_bind (keeps_entriesOf _) fun _ _ _ => follows_pure _

omit hO in
/-- An instance that has been made is told, so it is no part of evaluation in a mild run. -/
theorem external_of_made {attributes : Value} {w' : World} {marks : List Mark}
    {made : (Value × Value) × List (Value × Value)}
    (h : Recorded.made O e plan attributes w = ((.ok made, w'), marks)) (hmild : Mild marks) :
    made.1.1.isExternal := by
  obtain ⟨v₁, w₁, marks₁, marks₂, _, htold, rfl⟩ := ok_of_bind h
  obtain ⟨_, w₂, marks₃, marks₄, htell, hentries, rfl⟩ := ok_of_bind htold
  obtain ⟨_, w₃, _, _, _, hpair, _⟩ := ok_of_bind hentries
  cases hpair
  cases htell
  exact hmild (.makes e v₁.1) (by simp)

omit hO in
theorem follows_assign {v : Value} (hv : v.isExternal) (read : Value) (entry : Value × Value) :
    Follows L (assign e v read entry) w := by
  exact (follows_silent (idles_lacks _ _).halts).doingIf rfl (fun _ => rfl) fun _ _ =>
    follows_silent (idles_assignTo hv _).halts

variable (e plan w) in
theorem follows_constructWith (attributes : Value) :
    Follows L (constructWith O e plan attributes) w ∧ ∀ v w' marks,
      constructWith O e plan attributes w = ((.ok v, w'), marks) → Mild marks → v.isExternal := by
  have hmade : Follows L (doing e .constructs (made O e plan attributes)) w :=
    (follows_made hO attributes).doing rfl fun _ => rfl
  have hexternal : ∀ made w' marks, doing e .constructs (Recorded.made O e plan attributes) w =
      ((.ok made, w'), marks) → Mild marks → made.1.1.isExternal := by
    intro made w' marks hdone hmild
    rcases hrun : Recorded.made O e plan attributes w with ⟨⟨outcome, w₁⟩, inner⟩
    rw [Recorded.doing, hrun] at hdone
    cases hdone
    exact external_of_made hrun (mild_append.mp (mild_cons.mp hmild).2).1
  refine ⟨follows_bind_of hmade fun made w' marks hdone hmild _ => ?_, ?_⟩
  · refine (follows_forM _ fun entry _ _ _ => ?_).bind fun _ _ _ => follows_pure _
    exact follows_assign (hexternal made w' marks hdone hmild) _ entry
  · intro v w' marks hrun hmild
    obtain ⟨made, w₁, marks₁, marks₂, hdone, hrest, rfl⟩ := ok_of_bind hrun
    obtain ⟨_, w₂, _, _, _, hpure, _⟩ := ok_of_bind hrest
    cases hpure
    exact hexternal made w₁ marks₁ hdone (mild_append.mp hmild).1

section Instance

variable {v : Value} (hv : v.isExternal)

include hv

omit hO in
theorem follows_hasAttr {method : String} (hmethod : method ∈ persistenceMethods) :
    Follows L (hasAttr O v method) w := by
  have hget : Idles (Action.getAttr O.host v method) := idles_getPersistence hv O.host hmethod
  unfold hasAttr
  rw [getAttr_external O hv]
  refine (follows_silent hget.halts).attempt.bind fun outcome _ _ => ?_
  split
  · exact follows_pure _
  · refine follows_silent ?_
    split
    · exact keeps_pure _
    · exact keeps_throw _

omit hO in
theorem follows_stub (ev : EvaluatorId) (attributes : Value) :
    Follows L (stub O e ev v attributes) w := by
  have hset : Halts (setAttr v "id" =<< drawId ev) :=
    keeps_bind (halts_drawId ev) fun _ => (idles_setAttr hv _ _).halts
  refine ((follows_silent (idles_lacks _ _).halts).doingIf rfl (fun _ => rfl) fun _ _ =>
    follows_silent hset).bind fun _ w₁ _ => ?_
  exact follows_forM _ fun method hmethod _ _ => (follows_hasAttr hv hmethod).doingIf rfl
    (fun _ => rfl) fun _ _ => follows_silent (idles_refuse hv method).halts

theorem follows_persist : Follows L (persist O plan v) w := by
  unfold persist
  split
  · exact ((hO.call _ _ _).noting _).bind fun _ _ _ => follows_pure _
  · have hget : Idles (Action.getAttr O.host v "save") :=
      idles_getAttr O.host hv (by decide) (by decide)
    have hfound : Follows L (getAttrOr O v "save" .null) w := by
      unfold getAttrOr
      rw [getAttr_external O hv]
      refine (follows_silent hget.halts).recover fun failure _ _ => follows_silent ?_
      split
      · exact keeps_pure _
      · exact keeps_throw _
    refine hfound.bind fun save w₁ _ => ?_
    split
    · exact follows_silent (keeps_bind keeps_get fun _ => keeps_throw _)
    · exact (hO.call _ _ _).bind fun _ _ _ => follows_pure _

omit hv in
theorem follows_fire (event : Event) (context : Value) :
    Follows L (fire O e plan event v context) w := by
  refine follows_forM _ fun c _ w₁ _ => Follows.doing rfl (fun _ => rfl) ?_
  have hinvoke : Follows L (invoke O c.fn v context) w₁ := by
    refine follows_get_bind ?_
    split
    · exact hO.call _ _ _
    · exact hO.call _ _ _
  exact (hinvoke.noting _).bind fun _ _ _ => follows_pure _

theorem follows_perform (ev : EvaluatorId) (attributes : Value) (stage : Stage) :
    Follows L (perform O e ev plan attributes v stage) w := by
  cases stage with
  | stub => exact follows_stub hv ev attributes
  | fire event => exact follows_fire hO event _
  | persist => exact (follows_persist hO hv).doing rfl fun _ => rfl

end Instance

variable (e plan w) in
/-- What an evaluation tells once its attributes have been resolved. -/
theorem follows_afterwards (ev : EvaluatorId) (s : Strategy) (values : Table Value) : Follows L (do
    let attributes ← silent (Parts.dict (values.entries.map fun a => (.text a.1, a.2)))
    if s = .attributesFor then return attributes
    else
      let v ← constructWith O e plan attributes
      s.stages.forM (perform O e ev plan attributes v)
      return v) w := by
  refine follows_silent_bind (keeps_alloc _) fun attributes w₁ _ => ?_
  split
  · exact follows_pure _
  · obtain ⟨hfollows, hexternal⟩ := follows_constructWith e w₁ plan hO attributes
    refine follows_bind_of hfollows fun v w₂ marks hmade hmild _ => ?_
    have hv := hexternal v w₂ marks hmade hmild
    exact (follows_forM _ fun stage _ _ _ => follows_perform hO hv ev attributes stage).bind
      fun _ _ _ => follows_pure _

variable (plan) in
/-- **An evaluation that has begun follows every ledger.** -/
theorem follows_lifecycle (hE : w.Stands e E t active) (hdeclarations : E.declarations = none)
    (ev : EvaluatorId) (s : Strategy) : Follows L (lifecycle O e ev plan s) w :=
  (follows_resolve hO hE hdeclarations).bind fun values _ _ => follows_afterwards e _ plan hO ev s values

end Recorded

/-! ## 5. Whole evaluations -/

/-- Whether an evaluator may be asked to evaluate a plan with overrides: neither are its settings part
of evaluation, other than as settings, nor are the overrides. -/
def World.mayAsk (w : World) (ev : EvaluatorId) (overrides : Value) : Bool :=
  overrides.isExternal && (w.evaluator? ev).any fun E =>
    match E.settings with
    | .settings _ => true
    | v => v.isExternal

theorem World.mayAsk_upheld {w w' : World} {ev : EvaluatorId} {overrides : Value}
    (h : w.mayAsk ev overrides) (hupheld : w.Upheld w') : w'.mayAsk ev overrides := by
  obtain ⟨hoverrides, hsettings⟩ := Bool.and_eq_true_iff.mp h
  obtain ⟨E, hE, hplain⟩ := Option.any_eq_true _ _ |>.mp hsettings
  obtain ⟨E', hE', hsame, _⟩ := hupheld.evaluators ev.index E hE
  refine Bool.and_eq_true_iff.mpr ⟨hoverrides, Option.any_eq_true _ _ |>.mpr ⟨E', hE', ?_⟩⟩
  rwa [hsame]

namespace Recorded

variable {L : Ledger} {O : Observed} {w : World} {ev : EvaluatorId} {overrides : Value} (hO : O.Follows L)

include hO

theorem follows_overrideEntries (h : overrides.isExternal) :
    Follows L (overrideEntries O overrides) w := by
  refine follows_get_bind ?_
  split
  · exact follows_pure _
  · exact follows_pure _
  · rw [getAttr_external O h]
    refine follows_silent_bind (idles_getAttr O.host h (by decide) (by decide)).halts
      fun f w₁ _ => ?_
    exact (hO.call f [] w₁).bind fun items _ _ => follows_silent (idles_overridePairs items).halts

variable (hmay : w.mayAsk ev overrides)

include hmay

omit hO in
theorem follows_beginEvaluation (p : PlanId) (s : Strategy) :
    Follows L (beginEvaluation O ev p s) w := by
  obtain ⟨E, hE, hsettings⟩ := Option.any_eq_true _ _ |>.mp (Bool.and_eq_true_iff.mp hmay).2
  rw [Follows, beginEvaluation, silent_bind_ok (execute_getEvaluator hE)]
  have hfollows : ∀ w, Follows L (followsParent O E.settings) w := by
    intro w
    have hget : ∀ v : Value, v.isExternal → Follows L (getAttr O v "use_parent_strategy") w := by
      intro v hv
      rw [getAttr_external O hv]
      exact follows_silent (idles_getAttr O.host hv (by decide) (by decide)).halts
    unfold followsParent
    cases hcase : E.settings with
    | settings id => exact follows_silent_bind (keeps_getSettings id) fun _ _ _ => follows_pure _
    | _ =>
      rw [hcase] at hsettings
      exact hget _ hsettings
  have hrest : Follows L (do
      let plan ← silent (getPlan p)
      let follows ← followsParent O E.settings
      silent (newEvaluation
        { planId := p
          plan := plan
          strategy := .keyword (.strategy s)
          associate := E.associate
          useParentStrategy := follows })) w :=
    follows_silent_bind (keeps_getPlan p) fun plan w₁ _ => (hfollows w₁).bind fun _ _ _ =>
      follows_silent (adds_newEvaluation _).halts
  exact hrest

theorem follows_prepare (p : PlanId) (strategy : Value) (constructor persistor : Option Value) :
    Follows L (prepare O ev p strategy overrides constructor persistor) w := by
  have hexternal := (Bool.and_eq_true_iff.mp hmay).1
  refine follows_silent_bind (keeps_strategyOf strategy) fun s w₁ h₁ => ?_
  refine (follows_overrideEntries hO hexternal).bind fun entries w₂ h₂ => ?_
  refine follows_silent_bind (idles_applyOverrides _ _ _ _).halts fun p' w₃ h₃ => ?_
  refine follows_silent_bind (keeps_getPlan p') fun plan w₄ h₄ => ?_
  have hmay₄ := World.mayAsk_upheld hmay (((h₁.trans h₂).trans h₃).trans h₄)
  refine (follows_beginEvaluation hmay₄ p' s).bind fun e w₅ _ => ?_
  exact follows_silent_bind (keeps_log _ _ _) fun _ _ _ => follows_pure _

/-- **A whole evaluation follows every ledger**: it begins with nothing computed. -/
theorem follows_evaluate (cause : Option (EvaluationId × Association)) (p : PlanId)
    (strategy : Value) (constructor persistor : Option Value) :
    Follows L (evaluate O cause ev p strategy overrides constructor persistor) w := by
  refine follows_bind_of (follows_prepare hO hmay p strategy constructor persistor) ?_
  rintro ⟨s, plan, e⟩ w₁ marks hprepare _ _ hmild
  obtain ⟨E, hE, hfresh, rfl⟩ := stands_of_prepare hprepare
  have hlifecycle := follows_lifecycle E.plan hO hE hfresh ev s
  have hbegun : L.rel w₁ [.begins e E.plan s cause] w₁ := L.begins hE hfresh
  exact L.trans hbegun (hlifecycle (mild_cons.mp hmild).2)

end Recorded

/-! ## 6. The ledger of charts -/

/-- **Charts are a ledger.** -/
def Ledger.charts : Ledger where
  rel := World.Charts
  upheld := World.Charts.upheld
  unmoved := World.Unmoved.charts
  trans := World.Charts.trans
  plain := World.charts_plain
  begins := World.charts_begins
  failed hE hdeclarations hdeclared hactive hkept hinner :=
    hinner.failed hE hdeclarations hdeclared hactive hkept
  done hE hdeclarations hdeclared hactive hkept hinner _ _ :=
    hinner.done hE hdeclarations hdeclared hactive hkept _

/-- Surroundings in which whatever is called tells a chart follow the ledger of charts. -/
theorem Observed.Charted.follows {O : Observed} (hO : O.Charted) : O.Follows .charts :=
  ⟨hO.call, hO.associate⟩

namespace Recorded

variable {O : Observed} {e : EvaluationId} {E : Evaluation} {w : World} {t : Table Value}
  {active : List String} {plan : Plan} (hO : O.Charted)

include hO

theorem charted_compute (d : Declaration) : Charted (compute O e d) w :=
  follows_compute hO.follows d

/-- **What is told of a read is a chart.** -/
theorem charted_read (hE : w.Stands e E t active) (hdeclarations : E.declarations = none)
    (name : String) : Charted (read O e name) w :=
  follows_read hO.follows hE hdeclarations name

variable (e plan w) in
/-- What an evaluation tells once its attributes have been resolved is a chart. -/
theorem charted_afterwards (ev : EvaluatorId) (s : Strategy) (values : Table Value) :
    Charted (do
      let attributes ← silent (Parts.dict (values.entries.map fun a => (.text a.1, a.2)))
      if s = .attributesFor then return attributes
      else
        let v ← constructWith O e plan attributes
        s.stages.forM (perform O e ev plan attributes v)
        return v) w :=
  follows_afterwards e w plan hO.follows ev s values

variable (plan) in
/-- **What is told of an evaluation that has begun is a chart.** -/
theorem charted_lifecycle (hE : w.Stands e E t active)
    (hdeclarations : E.declarations = none) (ev : EvaluatorId) (s : Strategy) :
    Charted (lifecycle O e ev plan s) w :=
  follows_lifecycle plan hO.follows hE hdeclarations ev s

end Recorded

end TraitFactory
