import TraitFactory.Proofs.Drawing

/-!
# Tallies

What is told of some evaluations is tallied with the synthetic ids that are drawn meanwhile. A tally
says which evaluation each id was drawn for, that an evaluation draws once at most, under which
conditions it does, and in which order evaluations draw that belong to one another. Tallies of what
follows one another are added up.
-/

namespace TraitFactory

open Action

/-! ## 1. What is told of one evaluation -/

/-- The evaluation that a mark counts for: it begins, makes its instance, or numbers it. -/
def Mark.concerns : Mark → Option EvaluationId
  | .begins e _ _ _ | .makes e _ => some e
  | .starts e .constructs | .starts e (.assigns _) | .starts e .numbers => some e
  | .ends e .constructs _ | .ends e (.assigns _) _ | .ends e .numbers _ => some e
  | _ => none

/-- The evaluation that begins. -/
def Mark.begins? : Mark → Option EvaluationId
  | .begins e _ _ _ => some e
  | _ => none

/-- What counts for an evaluation of all that is told. -/
def told? (e : EvaluationId) (marks : List Mark) : List Mark :=
  marks.filter (·.concerns = some e)

/-- The ids that are drawn for an evaluation. -/
def drawnFor (e : EvaluationId) (ds : List Draw) : List Draw := ds.filter (·.evaluation = e)

/-- **An evaluation that has got through construction and attribute assignment.** -/
def Built (e : EvaluationId) (marks : List Mark) : Prop :=
  .ends e .constructs .done ∈ marks ∧
    ∀ name failure, .ends e (.assigns name) (.failed failure) ∉ marks

/-- **How an evaluation of a plan draws ids**: once at most, and it does just when it is to make a
stand-in, has made the instance with its attributes, and no attribute is named `id`. Of the last,
`spared` says whether the instance is made without the attributes being tampered with. -/
structure Plan.Numbered (plan : Plan) (spared : Prop) (e : EvaluationId) (s : Strategy)
    (marks : List Mark) (ds : List Draw) : Prop where
  once : (drawnFor e ds).length ≤ 1
  drawn : ∀ d ∈ ds, d.evaluation = e → s = .buildStubbed ∧ Built e marks ∧
    .makes e d.made ∈ marks ∧ (spared → "id" ∉ plan.names)
  draws : spared → s = .buildStubbed → Built e marks → "id" ∉ plan.names →
    ∃ d ∈ ds, d.evaluation = e

section Telling

variable {e : EvaluationId} {marks marks' : List Mark} {ds ds' : List Draw} {m : Mark}
  {plan : Plan} {spared : Prop} {s : Strategy}

theorem mem_begins? : e ∈ marks.filterMap Mark.begins? ↔
    ∃ plan s cause, .begins e plan s cause ∈ marks := by
  rw [List.mem_filterMap]
  refine ⟨fun ⟨m, hm, he⟩ => ?_, fun ⟨plan, s, cause, hm⟩ => ⟨_, hm, rfl⟩⟩
  cases m with
  | begins e' plan s cause =>
    cases he
    exact ⟨plan, s, cause, hm⟩
  | _ => cases he

theorem told?_append : told? e (marks ++ marks') = told? e marks ++ told? e marks' :=
  List.filter_append ..

theorem drawnFor_append : drawnFor e (ds ++ ds') = drawnFor e ds ++ drawnFor e ds' :=
  List.filter_append ..

theorem mem_told? : m ∈ told? e marks ↔ m ∈ marks ∧ m.concerns = some e := by
  simp [told?]

theorem mem_drawnFor {d : Draw} : d ∈ drawnFor e ds ↔ d ∈ ds ∧ d.evaluation = e := by
  simp [drawnFor]

theorem told?_eq_nil (h : ∀ m ∈ marks, m.concerns ≠ some e) : told? e marks = [] :=
  List.filter_eq_nil_iff.mpr fun m hm => by simpa using h m hm

theorem drawnFor_eq_nil (h : ∀ d ∈ ds, d.evaluation ≠ e) : drawnFor e ds = [] :=
  List.filter_eq_nil_iff.mpr fun d hd => by simpa using h d hd

/-- What is told of other evaluations makes no difference to whether one is built. -/
theorem built_congr (h : told? e marks = told? e marks') : Built e marks ↔ Built e marks' := by
  have hmem : ∀ m : Mark, m.concerns = some e → (m ∈ marks ↔ m ∈ marks') := fun m hm => by
    have hboth : m ∈ told? e marks ↔ m ∈ told? e marks' := by rw [h]
    simpa [mem_told?, hm] using hboth
  refine and_congr (hmem _ rfl) (forall_congr' fun name => forall_congr' fun failure => ?_)
  exact not_congr (hmem _ rfl)

/-- Nor does it to how one draws ids. -/
theorem Plan.Numbered.congr (h : plan.Numbered spared e s marks ds)
    (hmarks : told? e marks' = told? e marks) (hds : drawnFor e ds' = drawnFor e ds) :
    plan.Numbered spared e s marks' ds' := by
  have hmem : ∀ {d : Draw}, d.evaluation = e → (d ∈ ds' ↔ d ∈ ds) := fun {d} hd => by
    have hboth : d ∈ drawnFor e ds' ↔ d ∈ drawnFor e ds := by rw [hds]
    simpa [mem_drawnFor, hd] using hboth
  refine ⟨hds ▸ h.once, fun d hd he => ?_, fun hspared hs hbuilt hid => ?_⟩
  · obtain ⟨hs, hbuilt, hmakes, hid⟩ := h.drawn d ((hmem he).mp hd) he
    have htold : .makes e d.made ∈ told? e marks' := hmarks ▸ mem_told?.mpr ⟨hmakes, rfl⟩
    exact ⟨hs, (built_congr hmarks).mpr hbuilt, (mem_told?.mp htold).1, hid⟩
  · obtain ⟨d, hd, he⟩ := h.draws hspared hs ((built_congr hmarks).mp hbuilt) hid
    exact ⟨d, (hmem he).mpr hd, he⟩

/-- An evaluation that is not built, or makes no stand-in, draws nothing. -/
theorem Plan.numbered_of_none (hds : drawnFor e ds = [])
    (h : s = .buildStubbed → ¬Built e marks) : plan.Numbered spared e s marks ds where
  once := by rw [hds]; exact Nat.zero_le 1
  drawn d hd he := by
    have hmem := mem_drawnFor.mpr ⟨hd, he⟩
    rw [hds] at hmem
    cases hmem
  draws _ hs hbuilt _ := absurd hbuilt (h hs)

end Telling

/-! ## 2. Tallies -/

/-- **From where one looks at what is told**: as it is by itself, as what an association of an
evaluation asks for, or as what an evaluation does that is under way. -/
inductive Scope where
  | whole
  | asking (e : EvaluationId)
  | making (e : EvaluationId)

namespace Scope

/-- The evaluation of a scope is there already. -/
def Within (w : World) : Scope → Prop
  | whole => True
  | asking e | making e => e.index < w.evaluations.size

/-- Whether a mark is told in a scope by itself, and not by an evaluation that begins in it. -/
def Tells (scope : Scope) (m : Mark) : Prop :=
  (∀ e plan s cause, m ≠ .begins e plan s cause) ∧ ∀ e, m.concerns = some e → scope = .making e

theorem Within.remains {scope : Scope} {w w' : World} (h : scope.Within w) (hw : w.Remains w') :
    scope.Within w' := by
  cases scope with
  | whole => trivial
  | asking e => exact Nat.lt_of_lt_of_le h hw.size
  | making e => exact Nat.lt_of_lt_of_le h hw.size

/-- What is no more than a deed that makes nothing is told in every scope. -/
theorem tells_of_none {scope : Scope} {m : Mark} (h : m.concerns = none) : scope.Tells m := by
  refine ⟨fun e plan s cause hm => ?_, fun e he => ?_⟩
  · rw [hm] at h
    cases h
  · rw [h] at he
    cases he

/-- What is told of an evaluation is told where it is under way. -/
theorem tells_making {e : EvaluationId} {m : Mark} (h : m.concerns = some e)
    (hm : ∀ e plan s cause, m ≠ .begins e plan s cause) : (making e).Tells m := by
  refine ⟨hm, fun e' he' => ?_⟩
  rw [h] at he'
  cases he'
  rfl

end Scope

/-- **What is told and which ids are drawn** on the way from one world to another. -/
structure Tally (spared : Plan → Prop) (ev : EvaluatorId) (scope : Scope) (w : World)
    (marks : List Mark) (ds : List Draw) (w' : World) : Prop where
  draws : w.Draws ev ds w'
  /-- The ids are drawn in the order in which evaluations number their instances. -/
  told : (ds.map fun d => Mark.starts d.evaluation .numbers).Sublist marks
  /-- What is told is told of evaluations that are made meanwhile. -/
  concerns : ∀ m ∈ marks, ∀ e, m.concerns = some e → scope = .making e ∨
    w.evaluations.size ≤ e.index ∧ e.index < w'.evaluations.size
  begun : ∀ e plan s cause, .begins e plan s cause ∈ marks → w.evaluations.size ≤ e.index
  distinct : (marks.filterMap Mark.begins?).Nodup
  origin : ∀ d ∈ ds, scope = .making d.evaluation ∨
    ∃ plan s cause, .begins d.evaluation plan s cause ∈ marks
  complete : ∀ d ∈ ds, w'.Complete d.evaluation
  /-- An evaluation that is complete asks for nothing. -/
  barren : ∀ e' plan s e a, .begins e' plan s (some (e, a)) ∈ marks →
    scope = .asking e ∨ ¬w.Complete e
  numbered : ∀ e plan s cause, .begins e plan s cause ∈ marks →
    plan.Numbered (spared plan) e s marks ds
  /-- What an association asks for is numbered before what holds it. -/
  order : ∀ e' plan s e a, .begins e' plan s (some (e, a)) ∈ marks → ∀ d ∈ ds, ∀ d' ∈ ds,
    d.evaluation = e → d'.evaluation = e' → [d', d].Sublist ds

namespace Tally

variable {spared : Plan → Prop} {ev : EvaluatorId} {scope : Scope} {w w' w₁ : World}
  {marks marks' : List Mark} {ds ds' : List Draw} {e : EvaluationId}

/-- An id is drawn for an evaluation that is told of. -/
theorem starts_of_draw (h : Tally spared ev scope w marks ds w') {d : Draw} (hd : d ∈ ds) :
    .starts d.evaluation .numbers ∈ marks :=
  h.told.subset (List.mem_map_of_mem (f := fun d : Draw => Mark.starts d.evaluation .numbers) hd)

/-- Of an evaluation that is not made meanwhile nothing is told, unless it is under way. -/
theorem nothing (h : Tally spared ev scope w marks ds w') (hscope : scope ≠ .making e)
    (he : ¬(w.evaluations.size ≤ e.index ∧ e.index < w'.evaluations.size)) :
    told? e marks = [] ∧ drawnFor e ds = [] := by
  have hnone : ∀ m ∈ marks, m.concerns ≠ some e := fun m hm hconcerns =>
    (h.concerns m hm e hconcerns).elim hscope he
  refine ⟨told?_eq_nil hnone, drawnFor_eq_nil fun d hd heq => ?_⟩
  exact hnone _ (h.starts_of_draw hd) (by rw [heq]; rfl)

/-- An evaluation that begins is none that was there before. -/
theorem apart_of_begins (h : Tally spared ev scope w marks ds w') (hscope : scope.Within w)
    {plan : Plan} {s : Strategy} {cause : Option (EvaluationId × Association)}
    (hm : .begins e plan s cause ∈ marks) : scope ≠ .making e ∧
      w.evaluations.size ≤ e.index ∧ e.index < w'.evaluations.size := by
  have hfresh := h.begun e plan s cause hm
  have hscope' : scope ≠ .making e := fun heq => by
    rw [heq] at hscope
    exact absurd hscope (Nat.not_lt.mpr hfresh)
  exact ⟨hscope', (h.concerns _ hm e rfl).resolve_left hscope'⟩

/-- Where no id is drawn and what is told is told by the scope itself. -/
theorem of_unspent (h : w.Unspent w') (hm : ∀ m ∈ marks, scope.Tells m) :
    Tally spared ev scope w marks [] w' where
  draws := .nil h
  told := List.nil_sublist _
  concerns m hmem e he := .inl ((hm m hmem).2 e he)
  begun e plan s cause hmem := absurd rfl ((hm _ hmem).1 e plan s cause)
  distinct := by
    have hnone : marks.filterMap Mark.begins? = [] :=
      List.eq_nil_iff_forall_not_mem.mpr fun e he => by
        obtain ⟨plan, s, cause, hmem⟩ := mem_begins?.mp he
        exact (hm _ hmem).1 e plan s cause rfl
    rw [hnone]
    exact List.nodup_nil
  origin _ hd := absurd hd List.not_mem_nil
  complete _ hd := absurd hd List.not_mem_nil
  barren e' plan s e a hmem := absurd rfl ((hm _ hmem).1 e' plan s (some (e, a)))
  numbered e plan s cause hmem := absurd rfl ((hm _ hmem).1 e plan s cause)
  order e' plan s e a hmem := absurd rfl ((hm _ hmem).1 e' plan s (some (e, a)))

theorem nil (h : w.Unspent w') : Tally spared ev scope w [] [] w' :=
  of_unspent h fun _ hm => absurd hm List.not_mem_nil

/-- **Tallies are added up.** -/
theorem append (hscope : scope.Within w) (h : Tally spared ev scope w marks ds w₁)
    (h' : Tally spared ev scope w₁ marks' ds' w') :
    Tally spared ev scope w (marks ++ marks') (ds ++ ds') w' := by
  have hsize := h.draws.remains.size
  have hsize' := h'.draws.remains.size
  -- What has begun in one part is not told of in the other.
  have hfirst : ∀ {e plan s cause}, .begins e plan s cause ∈ marks →
      told? e marks' = [] ∧ drawnFor e ds' = [] := fun hm => by
    obtain ⟨hapart, _, hlt⟩ := h.apart_of_begins hscope hm
    exact h'.nothing hapart fun hrange => by omega
  have hsecond : ∀ {e plan s cause}, .begins e plan s cause ∈ marks' →
      told? e marks = [] ∧ drawnFor e ds = [] := fun hm => by
    obtain ⟨hapart, hle, _⟩ := h'.apart_of_begins (hscope.remains h.draws.remains) hm
    exact h.nothing hapart fun hrange => by omega
  have hnone : ∀ {ds : List Draw} {d : Draw}, drawnFor d.evaluation ds = [] → d ∉ ds :=
    fun hnil hd => by
      have hmem := mem_drawnFor.mpr ⟨hd, rfl⟩
      rw [hnil] at hmem
      cases hmem
  constructor
  case draws => exact h.draws.append h'.draws
  case told =>
    rw [List.map_append]
    exact h.told.append h'.told
  case concerns =>
    refine List.forall_mem_append.mpr ⟨fun m hm e he => ?_, fun m hm e he => ?_⟩
    · exact (h.concerns m hm e he).imp id fun hrange => by omega
    · exact (h'.concerns m hm e he).imp id fun hrange => by omega
  case begun =>
    intro e plan s cause hm
    rcases List.mem_append.mp hm with hm | hm
    · exact h.begun e plan s cause hm
    · exact Nat.le_trans hsize (h'.begun e plan s cause hm)
  case distinct =>
    rw [List.filterMap_append]
    refine List.nodup_append.mpr ⟨h.distinct, h'.distinct, fun e he e' he' heq => ?_⟩
    subst heq
    obtain ⟨plan, s, cause, hm⟩ := mem_begins?.mp he
    obtain ⟨plan', s', cause', hm'⟩ := mem_begins?.mp he'
    exact absurd (h.apart_of_begins hscope hm).2.2 (Nat.not_lt.mpr (h'.begun e plan' s' cause' hm'))
  case origin =>
    refine List.forall_mem_append.mpr ⟨fun d hd => ?_, fun d hd => ?_⟩
    · exact (h.origin d hd).imp id fun ⟨plan, s, cause, hm⟩ =>
        ⟨plan, s, cause, List.mem_append_left _ hm⟩
    · exact (h'.origin d hd).imp id fun ⟨plan, s, cause, hm⟩ =>
        ⟨plan, s, cause, List.mem_append_right _ hm⟩
  case complete =>
    exact List.forall_mem_append.mpr
      ⟨fun d hd => (h.complete d hd).remains h'.draws.remains, h'.complete⟩
  case barren =>
    intro e' plan s e a hm
    rcases List.mem_append.mp hm with hm | hm
    · exact h.barren e' plan s e a hm
    · exact (h'.barren e' plan s e a hm).imp id fun hincomplete hcomplete =>
        hincomplete (hcomplete.remains h.draws.remains)
  case numbered =>
    intro e plan s cause hm
    rcases List.mem_append.mp hm with hm | hm
    · refine (h.numbered e plan s cause hm).congr ?_ ?_
      · rw [told?_append, (hfirst hm).1, List.append_nil]
      · rw [drawnFor_append, (hfirst hm).2, List.append_nil]
    · refine (h'.numbered e plan s cause hm).congr ?_ ?_
      · rw [told?_append, (hsecond hm).1, List.nil_append]
      · rw [drawnFor_append, (hsecond hm).2, List.nil_append]
  case order =>
    rintro e' plan s e a hm d hd d' hd' rfl rfl
    rcases List.mem_append.mp hm with hm | hm
    · have hd' : d' ∈ ds := (List.mem_append.mp hd').resolve_right (hnone (hfirst hm).2)
      rcases List.mem_append.mp hd with hd | hd
      · exact (h.order _ plan s _ a hm d hd d' hd' rfl rfl).trans (List.sublist_append_left ..)
      · exact (List.singleton_sublist.mpr hd').append (List.singleton_sublist.mpr hd)
    · have hd' : d' ∈ ds' := (List.mem_append.mp hd').resolve_left (hnone (hsecond hm).2)
      rcases List.mem_append.mp hd with hd | hd
      · -- What has drawn is complete, so it asks for nothing any more.
        exfalso
        rcases h'.barren _ plan s _ a hm with hasking | hincomplete
        · rw [hasking] at hscope h
          rcases h.concerns _ (h.starts_of_draw hd) _ rfl with heq | ⟨hle, _⟩
          · cases heq
          · exact absurd hscope (Nat.not_lt.mpr hle)
        · exact hincomplete (h.complete d hd)
      · exact (h'.order _ plan s _ a hm d hd d' hd' rfl rfl).trans (List.sublist_append_right ..)

/-- What is told of by itself may be looked at from anywhere. -/
theorem of_whole (h : Tally spared ev .whole w marks ds w') : Tally spared ev scope w marks ds w' :=
  { h with
    concerns := fun m hm e he => (h.concerns m hm e he).imp (fun h => by cases h) id
    origin := fun d hd => (h.origin d hd).imp (fun h => by cases h) id
    barren := fun e' plan s e a hm => (h.barren e' plan s e a hm).imp (fun h => by cases h) id }

/-- So may what an association asks for while its evaluation is not complete. -/
theorem asked (h : Tally spared ev (.asking e) w marks ds w') (he : ¬w.Complete e) :
    Tally spared ev .whole w marks ds w' :=
  { h with
    concerns := fun m hm e he => (h.concerns m hm e he).imp (fun h => by cases h) id
    origin := fun d hd => (h.origin d hd).imp (fun h => by cases h) id
    barren := fun e' plan s e₁ a hm => .inr <| (h.barren e' plan s e₁ a hm).elim
      (fun heq => by cases heq; exact he) id }

end Tally

/-! ## 3. Keeping books -/

namespace Recorded

variable {α β : Type} {spared : Plan → Prop} {ev : EvaluatorId} {scope : Scope} {w : World}
  {Q : α → World → Prop} {R : β → World → Prop}

/-- **A recording whose books are kept**: as long as what it tells is mild, it is tallied. -/
def Books (spared : Plan → Prop) (ev : EvaluatorId) (scope : Scope) (Q : α → World → Prop)
    (r : Recorded α) (w : World) : Prop :=
  scope.Within w → Mild (r w).2 → ∃ ds, Tally spared ev scope w (r w).2 ds (r w).1.2 ∧
    ∀ x, (r w).1.1 = .ok x → Q x (r w).1.2

theorem Books.imp {Q' : α → World → Prop} {r : Recorded α} (h : Books spared ev scope Q r w)
    (hQ : ∀ x w', Q x w' → Q' x w') : Books spared ev scope Q' r w := fun hscope hmild => by
  obtain ⟨ds, htally, hresult⟩ := h hscope hmild
  exact ⟨ds, htally, fun x hx => hQ x _ (hresult x hx)⟩

theorem books_pure {x : α} (h : Q x w) : Books spared ev scope Q (pure x) w :=
  fun _ _ => ⟨[], .nil (.refl w), fun _ hx => by cases hx; exact h⟩

theorem books_silent {a : Action α} (ha : Saves a)
    (hQ : ∀ x w', a.execute w = (.ok x, w') → Q x w') : Books spared ev scope Q (silent a) w :=
  fun _ _ => ⟨[], .nil (ha w), fun x hx => hQ x _ (Prod.ext hx rfl)⟩

theorem Books.bind {r : Recorded α} {f : α → Recorded β} (h : Books spared ev scope Q r w)
    (hf : ∀ x w', w.Remains w' → Q x w' → Books spared ev scope R (f x) w') :
    Books spared ev scope R (r >>= f) w := by
  intro hscope hmild
  rcases hr : r w with ⟨⟨failure | x, w'⟩, marks⟩
  · rw [bind_error hr] at hmild ⊢
    rw [Books, hr] at h
    obtain ⟨ds, htally, _⟩ := h hscope hmild
    exact ⟨ds, htally, fun _ h => by cases h⟩
  · rw [bind_ok hr] at hmild ⊢
    rw [Books, hr] at h
    obtain ⟨hmarks, hrest⟩ := mild_append.mp hmild
    obtain ⟨ds, htally, hresult⟩ := h hscope hmarks
    have hremains := htally.draws.remains
    obtain ⟨ds', htally', hresult'⟩ :=
      hf x w' hremains (hresult x rfl) (hscope.remains hremains) hrest
    exact ⟨ds ++ ds', htally.append hscope htally', hresult'⟩

/-- What is done before anything is told. -/
theorem books_silent_bind {a : Action α} {f : α → Recorded β} (ha : Saves a)
    (hf : ∀ x w', a.execute w = (.ok x, w') → w.Remains w' → Books spared ev scope R (f x) w') :
    Books spared ev scope R (silent a >>= f) w :=
  (books_silent (Q := fun x w' => a.execute w = (.ok x, w')) ha fun _ _ h => h).bind
    fun x w' hremains h => hf x w' h hremains

theorem books_get_bind {f : World → Recorded β} (hf : Books spared ev scope R (f w) w) :
    Books spared ev scope R (silent get >>= f) w :=
  books_silent_bind keeps_get fun x w' h _ => by cases h; exact hf

theorem Books.attempt {r : Recorded α} (h : Books spared ev scope Q r w) :
    Books spared ev scope (fun outcome w' => ∀ x, outcome = .ok x → Q x w') r.attempt w := by
  intro hscope hmild
  obtain ⟨ds, htally, hresult⟩ := h hscope hmild
  exact ⟨ds, htally, fun outcome houtcome x hx => hresult x (by cases houtcome; exact hx)⟩

theorem Books.recover {r : Recorded α} {handle : Failure → Recorded α}
    (h : Books spared ev scope Q r w)
    (hh : ∀ failure w', w.Remains w' → Books spared ev scope Q (handle failure) w') :
    Books spared ev scope Q (r.recover handle) w := by
  intro hscope hmild
  rcases hr : r w with ⟨⟨failure | x, w'⟩, marks⟩ <;> rw [Books, hr] at h <;>
    rw [Recorded.recover, hr] at hmild ⊢
  · obtain ⟨hmarks, hrest⟩ := mild_append.mp hmild
    obtain ⟨ds, htally, _⟩ := h hscope hmarks
    have hremains := htally.draws.remains
    obtain ⟨ds', htally', hresult'⟩ := hh failure w' hremains (hscope.remains hremains) hrest
    exact ⟨ds ++ ds', htally.append hscope htally', hresult'⟩
  · exact h hscope hmild

theorem Books.noting {r : Recorded α} (note : String) (h : Books spared ev scope Q r w) :
    Books spared ev scope Q (r.noting note) w :=
  h.recover fun _ _ _ => books_silent (keeps_throw _) fun _ _ h => by cases h

/-- What is told around a recording is told by the scope itself. -/
theorem tally_around {marks before after : List Mark} {ds : List Draw} {w w' : World}
    (hscope : scope.Within w) (h : Tally spared ev scope w marks ds w')
    (hbefore : ∀ m ∈ before, scope.Tells m) (hafter : ∀ m ∈ after, scope.Tells m) :
    Tally spared ev scope w (before ++ marks ++ after) ds w' := by
  have hfirst := (Tally.of_unspent (.refl w) hbefore).append hscope h
  have hlast := hfirst.append hscope (Tally.of_unspent (.refl w') hafter)
  rwa [List.nil_append, List.append_nil] at hlast

section Deeds

variable {e : EvaluationId} {deed : Deed} (hstarts : scope.Tells (.starts e deed))
  (hends : ∀ ending, scope.Tells (.ends e deed ending))

include hstarts hends

theorem Books.doing {r : Recorded α} (h : Books spared ev scope Q r w) :
    Books spared ev scope Q (r.doing e deed) w := by
  intro hscope hmild
  obtain ⟨hmarks, _⟩ := mild_append.mp (mild_cons.mp hmild).2
  obtain ⟨ds, htally, hresult⟩ := h hscope hmarks
  exact ⟨ds, tally_around hscope htally (List.forall_mem_singleton.mpr hstarts)
    (List.forall_mem_singleton.mpr (hends _)), hresult⟩

theorem Books.doingIf {needed : Recorded Bool} {r : Recorded Unit}
    (h : Books spared ev scope (fun _ _ => True) needed w)
    (hr : ∀ w', w.Remains w' → Books spared ev scope (fun _ _ => True) r w') :
    Books spared ev scope (fun _ _ => True) (Recorded.doingIf e deed needed r) w := by
  have haround : ∀ ending {marks ds w'}, scope.Within w → Tally spared ev scope w marks ds w' →
      Tally spared ev scope w (.starts e deed :: marks ++ [.ends e deed ending]) ds w' :=
    fun _ _ _ _ hscope htally => tally_around hscope htally (List.forall_mem_singleton.mpr hstarts)
      (List.forall_mem_singleton.mpr (hends _))
  intro hscope hmild
  rcases hneeded : needed w with ⟨⟨failure | b, w'⟩, marks⟩ <;> rw [Books, hneeded] at h
  · rw [Recorded.doingIf, hneeded] at hmild ⊢
    obtain ⟨ds, htally, _⟩ := h hscope (mild_append.mp (mild_cons.mp hmild).2).1
    exact ⟨ds, haround _ hscope htally, fun _ h => by cases h⟩
  · cases b with
    | true =>
      rw [Recorded.doingIf, hneeded] at hmild ⊢
      obtain ⟨hmarks, hrest⟩ := mild_append.mp (mild_append.mp (mild_cons.mp hmild).2).1
      obtain ⟨ds, htally, _⟩ := h hscope hmarks
      have hremains := htally.draws.remains
      obtain ⟨ds', htally', _⟩ := hr w' hremains (hscope.remains hremains) hrest
      have hboth := haround (.of (r w').1.1) hscope (htally.append hscope htally')
      rw [← List.cons_append] at hboth
      exact ⟨ds ++ ds', hboth, fun _ _ => trivial⟩
    | false =>
      rw [Recorded.doingIf, hneeded] at hmild ⊢
      obtain ⟨ds, htally, _⟩ := h hscope (mild_append.mp (mild_cons.mp hmild).2).1
      exact ⟨ds, haround _ hscope htally, fun _ _ => trivial⟩

end Deeds

/-- Each of some recordings leaves true what it has made true. -/
theorem books_mapM {f : α → Recorded β} {S : α → World → Prop}
    (hS : ∀ x {w w'}, S x w → w.Remains w' → S x w') (xs : List α)
    (h : ∀ x ∈ xs, ∀ w', w.Remains w' → Books spared ev scope (fun _ => S x) (f x) w') :
    Books spared ev scope (fun _ w' => ∀ x ∈ xs, S x w') (xs.mapM f) w := by
  induction xs generalizing w with
  | nil => exact books_pure fun _ hx => absurd hx List.not_mem_nil
  | cons x xs ih =>
    rw [List.mapM_cons]
    refine (h x List.mem_cons_self w (.refl w)).bind fun y w₁ h₁ hx => ?_
    have hrest := ih fun x hx w₂ h₂ => h x (List.mem_cons_of_mem _ hx) w₂ (h₁.trans h₂)
    intro hscope hmild
    -- What the first one makes true is still true when the others are through.
    have hboth : Books spared ev scope (fun _ w' => S x w' ∧ ∀ x ∈ xs, S x w') (xs.mapM f) w₁ := by
      intro hscope hmild
      obtain ⟨ds, htally, hresult⟩ := hrest hscope hmild
      exact ⟨ds, htally, fun ys hys => ⟨hS x hx htally.draws.remains, hresult ys hys⟩⟩
    have hall : Books spared ev scope (fun _ w' => ∀ x' ∈ x :: xs, S x' w')
        (xs.mapM f >>= fun ys => pure (y :: ys)) w₁ :=
      hboth.bind fun ys w₂ _ hall => books_pure (List.forall_mem_cons.mpr hall)
    exact hall hscope hmild

theorem books_forM {f : α → Recorded Unit} (xs : List α)
    (h : ∀ x ∈ xs, ∀ w', w.Remains w' → Books spared ev scope (fun _ _ => True) (f x) w') :
    Books spared ev scope (fun _ _ => True) (xs.forM f) w := by
  induction xs generalizing w with
  | nil => exact books_pure trivial
  | cons x xs ih =>
    refine (h x List.mem_cons_self w (.refl w)).bind fun _ w₁ h₁ _ => ?_
    exact ih fun x hx w₂ h₂ => h x (List.mem_cons_of_mem _ hx) w₂ (h₁.trans h₂)

end Recorded

end TraitFactory
