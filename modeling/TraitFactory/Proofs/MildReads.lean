import TraitFactory.Proofs.MildRuns

/-!
# Reads in mild runs

As long as a run is mild, a read computes an attribute at most once: what it computes is kept from
then on. Reading keeps up all that evaluates, and in an evaluation that is complete it tells
nothing.
-/

namespace TraitFactory

open Action

/-! ## 1. Values that are kept -/

namespace World

variable {w w' : World} {e : EvaluationId} {E E' : Evaluation} {t t' : Table Value}
  {active active' : List String} {name : String}

/-- **An attribute whose value an evaluation keeps.** -/
def Settled (w : World) (e : EvaluationId) (name : String) : Prop :=
  ∃ E t active, w.Stands e E t active ∧ (t.get? name).isSome

theorem Settled.upheld (h : w.Settled e name) (hupheld : w.Upheld w') : w'.Settled e name := by
  obtain ⟨E, t, active, hE, hname⟩ := h
  obtain ⟨t', hE', hholds⟩ := hupheld.stands hE
  obtain ⟨v, hv⟩ := Option.isSome_iff_exists.mp hname
  exact ⟨E, t', active, hE', by rw [hholds name v hv]; rfl⟩

/-- An evaluation stands in one way only. -/
theorem Stands.values_eq (h : w.Stands e E t active) (h' : w.Stands e E' t' active') : t = t' := by
  have heq := Option.some.inj (h.symm.trans h')
  have hvalues : Slot.own t = Slot.own t' := congrArg Evaluation.values heq
  cases hvalues
  rfl

/-- An evaluation that keeps the values of all its attributes is complete. -/
theorem complete_of_settled (h : w.Stands e E t active) (hE : E.declarations = none)
    (hall : ∀ name ∈ E.plan.names, w.Settled e name) : w.Complete e := by
  refine ⟨E, t, active, h, hE, fun name hname => ?_⟩
  obtain ⟨E', t', active', hE', hkept⟩ := hall name hname
  rw [h.values_eq hE']
  exact hkept

/-- **While an attribute is computed**, all but what is being computed is upheld, and that is what
it was again afterwards. -/
theorem upheld_across (h : w.Stands e E t active) (hupheld : (activated w e name).Upheld w') :
    w.Upheld (deactivated w' e) := by
  obtain ⟨t', hE', hholds⟩ := hupheld.stands (stands_activated h)
  refine { hupheld with evaluations := fun i x hx => ?_ }
  by_cases hi : e.index = i
  · subst hi
    cases h.symm.trans hx
    refine ⟨_, stands_deactivated hE', rfl, fun t₀ ht₀ => ?_⟩
    cases ht₀
    exact ⟨t', rfl, hholds⟩
  · have hactivated : (activated w e name).evaluations[i]? = some x := by
      show (w.evaluations.modify e.index _)[i]? = _
      rw [Array.getElem?_modify, if_neg hi, hx]
    obtain ⟨y, hy, hxy⟩ := hupheld.evaluations i x hactivated
    refine ⟨y, ?_, hxy⟩
    show (w'.evaluations.modify e.index _)[i]? = _
    rw [Array.getElem?_modify, if_neg hi, hy]

/-- So it is when a value is kept that was not there before. -/
theorem upheld_withKept (h : w.Stands e E t active) (hname : t.get? name = none)
    (h' : w'.Stands e E t' active) (hupheld : w.Upheld w') (v : Value) :
    w.Upheld (withKept w' e name v) := by
  refine { hupheld with evaluations := fun i x hx => ?_ }
  by_cases hi : e.index = i
  · subst hi
    cases h.symm.trans hx
    obtain ⟨t₁, hE₁, hholds⟩ := hupheld.stands h
    cases hE₁.values_eq h'
    refine ⟨_, stands_withKept h', rfl, fun t₀ ht₀ => ?_⟩
    cases ht₀
    refine ⟨_, rfl, fun n u hu => ?_⟩
    have hn : n ≠ name := fun heq => by rw [heq, hname] at hu; cases hu
    rw [Table.get?_insert_of_ne _ _ hn]
    exact hholds n u hu
  · obtain ⟨y, hy, hxy⟩ := hupheld.evaluations i x hx
    refine ⟨y, ?_, hxy⟩
    show (w'.evaluations.modify e.index _)[i]? = _
    rw [Array.getElem?_modify, if_neg hi, hy]

end World

/-! ## 2. Recorded reads -/

namespace Recorded

variable {O : Observed} {e : EvaluationId} {E : Evaluation} {w w₁ : World} {t : Table Value}
  {active : List String} {name : String} {v : Value} {d : Declaration}

/-- The value that is kept is read without a word. -/
theorem read_kept (h : w.Stands e E t active) (hv : t.get? name = some v) :
    read O e name w = ((.ok v, w), []) := by
  have hcomputed : (computed? { E with values := .own t, active := .own active } name).execute w =
      (.ok (some v), w) := by
    rw [← hv]
    rfl
  rw [read, silent_bind_ok (execute_getEvaluation h), silent_bind_ok hcomputed]
  rfl

/-- What is told of a read where no value is kept. -/
theorem read_missing (h : w.Stands e E t active) (hE : E.declarations = none)
    (hv : t.get? name = none) : read O e name w =
      (if name ∈ active then
        silent (failInFactory (.attributeCycle name (Evaluation.chain active name)) E.plan.factory)
      else match E.plan.declaration? name with
        | none => silent (failInFactory (.undefinedAttribute name) E.plan.factory)
        | some d => do
          silent (activate e name)
          let outcome ← (doing e (.computes name) (compute O e d)).attempt
          silent (deactivate e)
          match outcome with
          | .ok v =>
            silent (keepComputed e name v)
            return v
          | .error failure =>
            silent (throw (if failure.cause.isOwn then failure
              else failure.addNote (Evaluation.note { E with
                values := .own t, active := .own active } name d)))) w := by
  have hcomputed : (computed? { E with values := .own t, active := .own active } name).execute w =
      (.ok none, w) := by
    rw [← hv]
    rfl
  have hactive : (activeNames { E with values := .own t, active := .own active }).execute w =
      (.ok active, w) := rfl
  have hdeclared := execute_declarationFor? (E := { E with
    values := .own t, active := .own active }) hE name w
  rw [read, silent_bind_ok (execute_getEvaluation h), silent_bind_ok hcomputed]
  dsimp only
  rw [silent_bind_ok hactive]
  by_cases hname : name ∈ active
  · rw [if_pos hname, if_pos hname]
  · rw [if_neg hname, if_neg hname]
    exact (silent_bind_ok hdeclared).trans rfl

section Yielding

variable {P : List Mark → Prop} (hP : Tale P) (h : w.Stands e E t active)
  (hcompute : Tends P (compute O e d) (activated w e name)) (hv : t.get? name = none)

include hP h hcompute hv

/-- An attribute that is computed in a mild run is kept, and all that evaluates is upheld. -/
theorem yields_computing {note : Failure → Failure} (hstarts : P [.starts e (.computes name)])
    (hends : ∀ ending, P [.ends e (.computes name) ending]) :
    Yields P (fun _ w' => w'.Settled e name) (do
      silent (activate e name)
      let outcome ← (doing e (.computes name) (compute O e d)).attempt
      silent (deactivate e)
      match outcome with
      | .ok v =>
        silent (keepComputed e name v)
        return v
      | .error failure => silent (throw (note failure))) w := by
  have htends := hcompute.doing hP hstarts hends
  rcases hrun : doing e (.computes name) (compute O e d) (activated w e name) with
    ⟨⟨outcome, w₁⟩, marks⟩
  have hattempt : (doing e (.computes name) (compute O e d)).attempt (activated w e name) =
      ((.ok outcome, w₁), marks) := by rw [Recorded.attempt, hrun]
  rw [Tends, hrun] at htends
  rw [Yields, Tends, silent_bind_ok (execute_activate h), bind_ok hattempt]
  by_cases hmild : Mild marks
  · obtain ⟨hupheld, htold⟩ := htends hmild
    obtain ⟨t', hE', _⟩ := hupheld.stands (stands_activated h)
    have hback := World.upheld_across h hupheld
    have hstands := stands_deactivated hE'
    rw [silent_bind_ok (execute_deactivate hE')]
    cases outcome with
    | error failure =>
      exact ⟨fun _ => ⟨hback, hP.append htold hP.nil⟩, fun _ x hx => by cases hx⟩
    | ok v =>
      dsimp only
      rw [silent_bind_ok (execute_keepComputed hstands)]
      refine ⟨fun _ => ⟨World.upheld_withKept h hv hstands hback v, hP.append htold hP.nil⟩,
        fun _ x _ => ⟨E, _, active, stands_withKept hstands, ?_⟩⟩
      rw [Table.get?_insert_self]
      rfl
  · exact ⟨fun hall => absurd (mild_append.mp hall).1 hmild,
      fun hall => absurd (mild_append.mp hall).1 hmild⟩

end Yielding

variable {P : List Mark → Prop} (h : w.Stands e E t active) (hE : E.declarations = none)

include h hE

/-- **A read in a mild run**: it keeps up all that evaluates, and what it gives is kept. What is
told meanwhile is what the computation tells, if there is one. -/
theorem yields_read (hP : Tale P) (hcompute : ∀ d, Tends P (compute O e d) (activated w e name))
    (hstarts : P [.starts e (.computes name)])
    (hends : ∀ ending, P [.ends e (.computes name) ending]) :
    Yields P (fun _ w' => w'.Settled e name) (read O e name) w := by
  rcases hv : t.get? name with _ | v
  · have hfails : ∀ failure : Failure, Yields P (fun _ w' => w'.Settled e name)
        (silent (throw failure) : Recorded Value) w := fun failure =>
      ⟨fun _ => ⟨.refl w, hP.nil⟩, fun _ x hx => by cases hx⟩
    rw [Yields, Tends, read_missing h hE hv]
    by_cases hname : name ∈ active
    · rw [if_pos hname]
      exact hfails _
    · rw [if_neg hname]
      rcases E.plan.declaration? name with _ | d
      · exact hfails _
      · exact yields_computing hP h (hcompute d) hv hstarts hends
  · rw [Yields, Tends, read_kept h hv]
    refine ⟨fun _ => ⟨.refl w, hP.nil⟩, fun _ _ _ => ⟨E, t, active, h, ?_⟩⟩
    rw [hv]
    rfl

omit h hE in
/-- A read in an evaluation that is complete tells nothing. -/
theorem tends_read_complete (h : w.Complete e) (name : String) :
    Tends (· = []) (read O e name) w := by
  obtain ⟨E, t, active, hE, hdeclarations, hall⟩ := h
  rcases hv : t.get? name with _ | v
  · have hundeclared : E.plan.declaration? name = none := by
      refine List.find?_eq_none.mpr fun d hd hname => ?_
      have hkept := hall d.name (List.mem_map_of_mem hd)
      rw [of_decide_eq_true hname, hv] at hkept
      cases hkept
    rw [Tends, read_missing hE hdeclarations hv, hundeclared]
    split <;> exact fun _ => ⟨.refl w, rfl⟩
  · rw [Tends, read_kept hE hv]
    exact fun _ => ⟨.refl w, rfl⟩

end Recorded

/-! ## 3. Resolving all attributes -/

namespace Recorded

variable {O : Observed} {e : EvaluationId} {E : Evaluation} {w : World} {t : Table Value}
  {active : List String} {name : String} {P : List Mark → Prop} (hP : Tale P)

include hP

theorem yields_readAmong {S : World → Prop}
    (hS : ∀ w w', S w → w.Upheld w' → S w') (count : Nat)
    (hread : Yields P (fun _ => S) (read O e name) w) :
    Yields P (fun _ => S) (readAmong O e count name) w := by
  refine hread.bind hP fun v w₁ _ hkept => ?_
  have hupheld : ∀ {r : Recorded (String × Value)}, Tends P r w₁ → Yields P (fun _ => S) r w₁ :=
    fun hrest => ⟨hrest, fun hmild _ _ => hS _ _ hkept (hrest hmild).1⟩
  refine hupheld (tends_silent_bind hP (keeps_getEvaluation e) fun evaluation w₂ _ =>
    tends_get_bind hP ?_)
  -- Whatever has become of the table of declarations, nothing more is told.
  split
  · split
    · exact tends_pure hP _
    · exact tends_silent hP (keeps_fail _)
  · exact tends_pure hP _

/-- **Once all attributes are resolved**, each by a read that keeps what it gives, the evaluation is
complete. -/
theorem yields_resolving (h : w.Stands e E t active) (hE : E.declarations = none)
    (hnames : (do namesToResolve (← getEvaluation e) : Action (List String)).execute w =
      (.ok E.plan.names, w))
    (hread : ∀ name w', w.Upheld w' → Yields P (fun _ w' => w'.Settled e name) (read O e name) w')
    (hstarts : ∀ name, P [.starts e (.resolves name)])
    (hends : ∀ name ending, P [.ends e (.resolves name) ending]) :
    Yields P (fun _ w' => w'.Complete e) (resolve O e) w := by
  rw [Yields, Tends, resolve, silent_bind_ok hnames]
  have hkeeps : ∀ name {w w' : World}, w.Settled e name → w.Upheld w' → w'.Settled e name :=
    fun _ => World.Settled.upheld
  have hall := yields_mapM hP hkeeps E.plan.names fun name _ w₁ h₁ =>
    (yields_readAmong hP (fun _ _ => hkeeps name) E.plan.names.length (hread name w₁ h₁)).doing hP
      (hstarts name) (hends name)
  have hcomplete : Yields P (fun _ w' => w'.Complete e)
      ((E.plan.names.mapM fun name =>
        doing e (.resolves name) (readAmong O e E.plan.names.length name)) >>= fun entries =>
          pure (⟨entries⟩ : Table Value)) w := by
    refine hall.bind hP fun entries w₁ h₁ hkept => yields_pure hP ?_
    obtain ⟨t', hE', _⟩ := h₁.stands h
    exact World.complete_of_settled hE' hE hkept
  exact hcomplete

end Recorded

end TraitFactory
