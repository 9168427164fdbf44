import TraitFactory.Proofs.Drawing
import TraitFactory.Proofs.Nesting
import TraitFactory.Proofs.Readings

/-!
# Charts of evaluations

Whatever is called while an evaluation computes may read its attributes again, run plans of its own
or read what other evaluations compute. As long as nothing meddles with evaluation, what is told is a
chart of every evaluation at once: it tells how each that stands is carried on, and how each that is
begun is.
-/

namespace TraitFactory

open Action

/-! ## 1. Charts -/

/-- **A world in which no evaluation is moved**, though there may be more of them. -/
structure World.Unmoved (w w' : World) : Prop where
  upheld : w.Upheld w'
  evaluations : Grown Eq w.evaluations w'.evaluations

/-- The frame of what moves no evaluation. -/
def Frame.unmoved : Frame where
  rel := World.Unmoved
  refl w := ⟨.refl w, .refl (fun _ => rfl) _⟩
  trans h h' := ⟨h.upheld.trans h'.upheld,
    h.evaluations.trans (fun _ _ _ => Eq.trans) h'.evaluations⟩

/-- **What is told is a chart of the evaluations** on the way from one world to another: those that
stand compute what is told of them, and so do those that begin, from nothing. -/
structure World.Charts (w : World) (marks : List Mark) (w' : World) : Prop where
  upheld : w.Upheld w'
  standing : ∀ e E t active, w.Stands e E t active → E.declarations = none →
    ∃ t', w'.Stands e E t' active ∧ E.plan.Computes e active t marks t'
  begun : ∀ before e plan s cause after, marks = before ++ .begins e plan s cause :: after →
    ∃ E t', w'.Stands e E t' [] ∧ E.declarations = none ∧ E.plan = plan ∧
      plan.Computes e [] ∅ after t'

/-- Whether a mark tells of neither the beginning of an evaluation nor what it computes. -/
def Mark.isPlain : Mark → Bool
  | .begins .. | .starts _ (.computes _) | .ends _ (.computes _) _ => false
  | _ => true

namespace World

variable {w w₁ w' : World} {e : EvaluationId} {E : Evaluation} {t t' : Table Value}
  {active active' : List String} {name : String} {marks marks' inner : List Mark} {m : Mark}

theorem Added.unmoved (h : w.Added w') : w.Unmoved w' := ⟨h.upheld, h.evaluations⟩

instance : Frame.unmoved.Lenient := Frame.lenient_of_idle fun _ _ h => h.added.unmoved

theorem Unmoved.stands (h : w.Unmoved w') (hE : w.Stands e E t active) :
    w'.Stands e E t active := by
  obtain ⟨_, hE', rfl⟩ := h.evaluations e.index _ hE
  exact hE'

/-- Where no evaluation is moved, there is nothing to tell. -/
theorem Unmoved.charts (h : w.Unmoved w') : w.Charts [] w' where
  upheld := h.upheld
  standing _ _ t _ hE _ := ⟨t, h.stands hE, .nil⟩
  begun before _ _ _ _ _ heq := by cases before <;> cases heq

theorem Charts.trans (h : w.Charts marks w₁) (h' : w₁.Charts marks' w') :
    w.Charts (marks ++ marks') w' where
  upheld := h.upheld.trans h'.upheld
  standing e E t active hE hdeclarations := by
    obtain ⟨t₁, hE₁, hcomputes⟩ := h.standing e E t active hE hdeclarations
    obtain ⟨t', hE', hcomputes'⟩ := h'.standing e E t₁ active hE₁ hdeclarations
    exact ⟨t', hE', hcomputes.append hcomputes'⟩
  begun before e plan s cause after heq := by
    obtain ⟨before', rfl, hlater⟩ | ⟨after', rfl, hafter⟩ := List.append_eq_append_iff.mp heq
    · exact h'.begun before' e plan s cause after hlater
    · cases after' with
      | nil => exact h'.begun [] e plan s cause after (by simpa using hafter.symm)
      | cons m after' =>
        rw [List.cons_append] at hafter
        obtain ⟨rfl, rfl⟩ := List.cons.inj hafter
        obtain ⟨E, t₁, hE₁, hdeclarations, rfl, hcomputes⟩ := h.begun before e plan s cause after' rfl
        obtain ⟨t', hE', hcomputes'⟩ := h'.standing e E t₁ [] hE₁ hdeclarations
        exact ⟨E, t', hE', hdeclarations, rfl, hcomputes.append hcomputes'⟩

/-- A mark that tells of nothing that evaluations compute. -/
theorem charts_plain (hm : m.isPlain) : w.Charts [m] w where
  upheld := .refl w
  standing e _ t _ hE _ := ⟨t, hE, .single (by
    unfold Mark.computes
    split <;> first | rfl | cases hm)⟩
  begun before e plan s cause after heq := by
    have hmem : .begins e plan s cause ∈ [m] := heq ▸ List.mem_append_right _ List.mem_cons_self
    rw [← List.mem_singleton.mp hmem] at hm
    cases hm

/-- An evaluation that begins has computed nothing. -/
theorem charts_begins {s : Strategy} {cause : Option (EvaluationId × Association)}
    (hE : w.Stands e E ∅ []) (hdeclarations : E.declarations = none) :
    w.Charts [.begins e E.plan s cause] w where
  upheld := .refl w
  standing _ _ t _ hE _ := ⟨t, hE, .single rfl⟩
  begun before e' plan s' cause' after heq := by
    cases before with
    | nil =>
      cases heq
      exact ⟨E, ∅, hE, hdeclarations, rfl, .nil⟩
    | cons m before => cases before <;> cases heq

/-- What one evaluation does to itself concerns no other. -/
theorem stands_modify_of_ne {e' : EvaluationId} (f : Evaluation → Evaluation) (hne : e' ≠ e) :
    (w.modifyEvaluation e f).Stands e' E t active ↔ w.Stands e' E t active := by
  have hplace : e.index ≠ e'.index := fun heq =>
    hne (congrArg EvaluationId.mk heq.symm)
  show (w.evaluations.modify e.index f)[e'.index]? = _ ↔ w.evaluations[e'.index]? = _
  rw [Array.getElem?_modify, if_neg hplace]

/-- What an evaluation is, apart from what it has come to. -/
theorem Stands.transfer {E' : Evaluation} (h : w.Stands e E t active)
    (h' : w.Stands e E' t' active') {t₁ : Table Value} {active₁ : List String}
    (h₁ : w₁.Stands e E t₁ active₁) : w₁.Stands e E' t₁ active₁ := by
  have hrest := congrArg (fun E : Evaluation =>
    { E with values := .own t₁, active := .own active₁ }) (Option.some.inj (h.symm.trans h'))
  exact h₁.trans (congrArg some hrest)

/-- An evaluation stands in one way only. -/
theorem Stands.active_eq {E' : Evaluation} (h : w.Stands e E t active)
    (h' : w.Stands e E' t' active') : active = active' := by
  have heq := Option.some.inj (h.symm.trans h')
  have hactive : Slot.own active = Slot.own active' := congrArg Evaluation.active heq
  cases hactive
  rfl

section Computing

variable {w₂ : World} {ending : Ending} (hE : w.Stands e E t active)
  (hdeclarations : E.declarations = none) (hinner : (activated w e name).Charts inner w₁)

include hE hdeclarations hinner

/-- **While an attribute is computed**, other evaluations are carried on and begun as is told. -/
theorem charts_computing (hupheld : w.Upheld w₂)
    (hothers : ∀ e' E' t' active', e' ≠ e → w₁.Stands e' E' t' active' →
      w₂.Stands e' E' t' active')
    (hself : w₂.Stands e E t' active) (hcomputes : E.plan.Computes e active t
      (.starts e (.computes name) :: inner ++ [.ends e (.computes name) ending]) t') :
    w.Charts (.starts e (.computes name) :: inner ++ [.ends e (.computes name) ending]) w₂ where
  upheld := hupheld
  standing e' E' t₀ active₀ hE' hdeclarations' := by
    by_cases hne : e' = e
    · subst hne
      have hsame := Option.some.inj (hE.symm.trans hE')
      have hplan : E.plan = E'.plan := (congrArg Evaluation.plan hsame :)
      cases hE.values_eq hE'
      cases hE.active_eq hE'
      exact ⟨t', hE.transfer hE' hself, hplan ▸ hcomputes⟩
    · obtain ⟨t₁, hE₁, hcomputes₁⟩ :=
        hinner.standing e' E' t₀ active₀ ((stands_modify_of_ne _ hne).mpr hE') hdeclarations'
      have hother : ∀ {b : Bool}, b = decide (e = e') → b = false := fun h =>
        h.trans (decide_eq_false fun heq => hne heq.symm)
      exact ⟨t₁, hothers e' E' t₁ active₀ hne hE₁,
        .other (hother rfl) (hcomputes₁.append (.single (hother rfl)))⟩
  begun before e' plan s cause after heq := by
    obtain ⟨before', after', hbegins, rfl⟩ : ∃ before' after',
        inner = before' ++ .begins e' plan s cause :: after' ∧
          after = after' ++ [.ends e (.computes name) ending] := by
      cases before with
      | nil => cases heq
      | cons m before =>
        obtain ⟨before', rfl, hlast⟩ | ⟨after', rfl, hafter⟩ :=
          List.append_eq_append_iff.mp (List.cons.inj heq).2
        · cases before' with
          | nil => cases hlast
          | cons _ before' => cases before' <;> cases hlast
        · cases after' with
          | nil => cases hafter
          | cons _ after' =>
            obtain ⟨rfl, rfl⟩ := List.cons.inj hafter
            exact ⟨before, after', rfl, rfl⟩
    obtain ⟨E', t₁, hE', hdeclarations', hplan, hcomputes'⟩ :=
      hinner.begun before' e' plan s cause after' hbegins
    -- What is computing has something active, and what has begun inside has nothing.
    have hne : e' ≠ e := by
      rintro rfl
      obtain ⟨_, hstill, _⟩ := hinner.standing _ _ _ _ (stands_activated hE) hdeclarations
      exact List.append_ne_nil_of_right_ne_nil _ (List.cons_ne_nil _ _) (hstill.active_eq hE')
    exact ⟨E', t₁, hothers e' E' t₁ [] hne hE', hdeclarations', hplan,
      hcomputes'.append (.single (decide_eq_false fun heq => hne heq.symm))⟩

variable (hdeclared : name ∈ E.plan.names) (hactive : name ∉ active) (hkept : t.get? name = none)

include hdeclared hactive hkept

/-- An attribute that could not be computed is no longer active. -/
theorem Charts.failed (failure : Failure) :
    w.Charts (.starts e (.computes name) :: inner ++
      [.ends e (.computes name) (.failed failure)]) (deactivated w₁ e) := by
  obtain ⟨t₁, hE₁, hcomputes⟩ := hinner.standing _ _ _ _ (stands_activated hE) hdeclarations
  exact charts_computing hE hdeclarations hinner (upheld_across hE hinner.upheld)
    (fun _ _ _ _ hne hE' => (stands_modify_of_ne _ hne).mpr hE') (stands_deactivated hE₁)
    (.failed hdeclared hactive hkept hcomputes .nil)

/-- The value of an attribute that has been computed is kept. -/
theorem Charts.done (v : Value) :
    w.Charts (.starts e (.computes name) :: inner ++ [.ends e (.computes name) .done])
      (withKept (deactivated w₁ e) e name v) := by
  obtain ⟨t₁, hE₁, hcomputes⟩ := hinner.standing _ _ _ _ (stands_activated hE) hdeclarations
  have hback := stands_deactivated hE₁
  exact charts_computing hE hdeclarations hinner
    (upheld_withKept hE hkept hback (upheld_across hE hinner.upheld) v)
    (fun _ _ _ _ hne hE' =>
      (stands_modify_of_ne _ hne).mpr ((stands_modify_of_ne _ hne).mpr hE'))
    (stands_withKept hback) (.done hdeclared hactive hkept hcomputes .nil)

end Computing

end World

/-! ## 2. Actions that move no evaluation -/

namespace Action

/-- **An action that moves no evaluation.** -/
abbrev Halts {α : Type} (a : Action α) : Prop := Keeps .unmoved a

theorem Adds.halts {α : Type} {a : Action α} (h : Adds a) : Halts a := fun w => (h w).unmoved

theorem Idles.halts {α : Type} {a : Action α} (h : Idles a) : Halts a := h.adds.halts

theorem halts_drawId (ev : EvaluatorId) : Halts (drawId ev) := by
  have hdraw : ∀ (w : World) id,
      w.Unmoved (w.modifyEvaluator ev fun E => { E with nextId := id }) := fun w id =>
    ⟨{ World.Upheld.refl w with
        evaluators := (World.Upheld.refl w).evaluators.modify
          (fun _ _ _ hxy hyz => ⟨hyz.1.trans hxy.1, hyz.2.trans hxy.2⟩) _ fun _ _ => ⟨rfl, rfl⟩ },
      .refl (fun _ => rfl) _⟩
  exact keeps_bind (keeps_getEvaluator ev) fun _ =>
    keeps_bind (Recorded.idles_idAfter _).halts fun next =>
      keeps_bind (keeps_modify fun w => hdraw w next) fun _ => keeps_pure _

end Action

namespace Recorded

variable {α : Type}

/-- **A recording that is a chart** as long as what it tells is mild. -/
def Charted (r : Recorded α) (w : World) : Prop := Mild (r w).2 → w.Charts (r w).2 (r w).1.2

end Recorded

/-- **Surroundings in which whatever is called tells a chart.** -/
structure Observed.Charted (O : Observed) : Prop where
  call : ∀ f arguments w, Recorded.Charted (O.call f arguments) w
  associate : ∀ e a f arguments w, Recorded.Charted (O.associate e a f arguments) w

end TraitFactory
