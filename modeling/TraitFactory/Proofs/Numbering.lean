import TraitFactory.Proofs.Bookkeeping

/-!
# How evaluations number their instances

The books of a whole evaluation: while it resolves its attributes, what it asks for is numbered;
then it makes its instance and assigns the attributes, and only if all of that is done and no
attribute is named `id` does it draw an id itself.
-/

namespace TraitFactory

open Action Recorded

namespace Recorded

variable {α β : Type} {O : Observed} {spared : Plan → Prop} {c : Wiring} {s : Strategy}
  {e : EvaluationId} {w w' : World} {plan : Plan} {Q : α → World → Prop}

/-! ## 1. An evaluation under way -/

/-- **The books of an evaluation that is under way**: of what is told of it and drawn for it, and
what it has come to, something is known. -/
def Makes (spared : Plan → Prop) (ev : EvaluatorId) (e : EvaluationId)
    (Q : Except Failure α → World → List Mark → List Draw → Prop) (r : Recorded α) (w : World) :
    Prop :=
  e.index < w.evaluations.size → Mild (r w).2 → ∃ ds,
    Tally spared ev (.making e) w (r w).2 ds (r w).1.2 ∧
    Q (r w).1.1 (r w).1.2 (told? e (r w).2) (drawnFor e ds)

section Making

variable {ev : EvaluatorId} {P : Except Failure α → World → List Mark → List Draw → Prop}
  {R : Except Failure β → World → List Mark → List Draw → Prop}

theorem Makes.imp {P' : Except Failure α → World → List Mark → List Draw → Prop} {r : Recorded α}
    (h : Makes spared ev e P r w) (hP : ∀ outcome w' own ids, P outcome w' own ids →
      P' outcome w' own ids) : Makes spared ev e P' r w := fun hsize hmild => by
  obtain ⟨ds, htally, hresult⟩ := h hsize hmild
  exact ⟨ds, htally, hP _ _ _ _ hresult⟩

/-- Of the evaluation itself nothing is told by others. -/
theorem Books.makes {r : Recorded α} (h : Books spared ev .whole Q r w) :
    Makes spared ev e (fun outcome w' own ids => own = [] ∧ ids = [] ∧
      ∀ x, outcome = .ok x → Q x w') r w := by
  intro hsize hmild
  obtain ⟨ds, htally, hresult⟩ := h trivial hmild
  have hnothing := htally.nothing (e := e) (fun h => by cases h) fun hrange => by omega
  exact ⟨ds, htally.of_whole, hnothing.1, hnothing.2, hresult⟩

theorem makes_pure {x : α} (h : P (.ok x) w [] []) : Makes spared ev e P (pure x) w :=
  fun _ _ => ⟨[], .nil (.refl w), h⟩

theorem makes_silent {a : Action α} (ha : Saves a)
    (h : P (a.execute w).1 (a.execute w).2 [] []) : Makes spared ev e P (silent a) w :=
  fun _ _ => ⟨[], .nil (ha w), h⟩

theorem Makes.bind {r : Recorded α} {f : α → Recorded β} (h : Makes spared ev e P r w)
    (herror : ∀ failure w' own ids, P (.error failure) w' own ids → R (.error failure) w' own ids)
    (hf : ∀ x w' own ids, w.Remains w' → P (.ok x) w' own ids → Makes spared ev e
      (fun outcome w'' own' ids' => R outcome w'' (own ++ own') (ids ++ ids')) (f x) w') :
    Makes spared ev e R (r >>= f) w := by
  intro hsize hmild
  rcases hr : r w with ⟨⟨failure | x, w'⟩, marks⟩ <;> rw [Makes, hr] at h
  · rw [bind_error hr] at hmild ⊢
    obtain ⟨ds, htally, hresult⟩ := h hsize hmild
    exact ⟨ds, htally, herror _ _ _ _ hresult⟩
  · rw [bind_ok hr] at hmild ⊢
    obtain ⟨hmarks, hrest⟩ := mild_append.mp hmild
    obtain ⟨ds, htally, hresult⟩ := h hsize hmarks
    have hremains := htally.draws.remains
    obtain ⟨ds', htally', hresult'⟩ :=
      hf x w' _ _ hremains hresult (Nat.lt_of_lt_of_le hsize hremains.size) hrest
    have hwithin : (Scope.making e).Within w := hsize
    refine ⟨ds ++ ds', htally.append hwithin htally', ?_⟩
    rwa [told?_append, drawnFor_append]

/-- What is done first tells nothing. -/
theorem makes_silent_bind {a : Action α} {f : α → Recorded β} (ha : Saves a)
    (herror : ∀ failure w', a.execute w = (.error failure, w') → R (.error failure) w' [] [])
    (hf : ∀ x w', a.execute w = (.ok x, w') → w.Remains w' → Makes spared ev e R (f x) w') :
    Makes spared ev e R (silent a >>= f) w := by
  have hfirst : Makes spared ev e (fun outcome w' own ids => own = [] ∧ ids = [] ∧
      a.execute w = (outcome, w')) (silent a) w := makes_silent ha ⟨rfl, rfl, rfl⟩
  refine hfirst.bind (fun failure w' own ids h => ?_) fun x w' own ids hremains h => ?_
  · obtain ⟨rfl, rfl, hrun⟩ := h
    exact herror failure w' hrun
  · obtain ⟨rfl, rfl, hrun⟩ := h
    exact hf x w' hrun hremains

theorem Makes.doing {deed : Deed} {r : Recorded α} (h : Makes spared ev e P r w)
    (hdeed : (Mark.starts e deed).concerns = some e)
    (hends : ∀ ending, (Mark.ends e deed ending).concerns = some e) :
    Makes spared ev e (fun outcome w' own ids => ∃ inner, P outcome w' inner ids ∧
      own = .starts e deed :: inner ++ [.ends e deed (.of outcome)]) (r.doing e deed) w := by
  intro hsize hmild
  obtain ⟨hmarks, _⟩ := mild_append.mp (mild_cons.mp hmild).2
  obtain ⟨ds, htally, hresult⟩ := h hsize hmarks
  have hbefore : (Scope.making e).Tells (.starts e deed) :=
    Scope.tells_making hdeed fun _ _ _ _ heq => by cases heq
  have hafter : ∀ ending, (Scope.making e).Tells (.ends e deed ending) := fun ending =>
    Scope.tells_making (hends ending) fun _ _ _ _ heq => by cases heq
  have hwithin : (Scope.making e).Within w := hsize
  refine ⟨ds, tally_around hwithin htally (List.forall_mem_singleton.mpr hbefore)
    (List.forall_mem_singleton.mpr (hafter _)), _, hresult, ?_⟩
  have hfirst : told? e [.starts e deed] = [.starts e deed] :=
    List.filter_eq_self.mpr (List.forall_mem_singleton.mpr (by simpa using hdeed))
  have hlast : ∀ ending, told? e [.ends e deed ending] = [.ends e deed ending] := fun ending =>
    List.filter_eq_self.mpr (List.forall_mem_singleton.mpr (by simpa using hends ending))
  show told? e ([.starts e deed] ++ (r w).2 ++ [.ends e deed (.of (r w).1.1)]) = _
  rw [told?_append, told?_append, hfirst, hlast]
  rfl

/-- A deed that is done only where it is needed, which is found out without telling anything. -/
theorem makes_doingIf {deed : Deed} {a : Action Bool} {b : Action Unit}
    {R : Except Failure Unit → World → List Mark → List Draw → Prop}
    (hdeed : (Mark.starts e deed).concerns = some e)
    (hends : ∀ ending, (Mark.ends e deed ending).concerns = some e) (ha : Saves a)
    (hfailed : ∀ failure w', a.execute w = (.error failure, w') →
      R (.error failure) w' [.starts e deed, .ends e deed (.failed failure)] [])
    (hidle : ∀ w', a.execute w = (.ok false, w') →
      R (.ok ()) w' [.starts e deed, .ends e deed .idle] [])
    (hdone : ∀ w', a.execute w = (.ok true, w') → w.Remains w' → ∃ ds,
      Tally spared ev (.making e) w' [.starts e deed, .ends e deed (.of (b.execute w').1)] ds
        (b.execute w').2 ∧
      R (b.execute w').1 (b.execute w').2
        [.starts e deed, .ends e deed (.of (b.execute w').1)] (drawnFor e ds)) :
    Makes spared ev e R (doingIf e deed (silent a) (silent b)) w := by
  have hboth : ∀ ending, ∀ m ∈ [Mark.starts e deed, .ends e deed ending],
      m.concerns = some e ∧ (Scope.making e).Tells m := fun ending =>
    List.forall_mem_cons.mpr ⟨⟨hdeed, Scope.tells_making hdeed fun _ _ _ _ heq => by cases heq⟩,
      List.forall_mem_singleton.mpr ⟨hends ending,
        Scope.tells_making (hends ending) fun _ _ _ _ heq => by cases heq⟩⟩
  have htold : ∀ ending, told? e [.starts e deed, .ends e deed ending] =
      [.starts e deed, .ends e deed ending] := fun ending =>
    List.filter_eq_self.mpr fun m hm => by simpa using (hboth ending m hm).1
  intro hsize _
  have hwithin : (Scope.making e).Within w := hsize
  have hsaves := ha w
  rcases hrun : a.execute w with ⟨failure | b', w'⟩ <;> rw [hrun] at hsaves
  · have hneeded : silent a w = ((.error failure, w'), []) := by rw [silent, hrun]
    rw [doingIf, hneeded]
    refine ⟨[], .of_unspent hsaves fun m hm => (hboth _ m hm).2, ?_⟩
    show R _ w' (told? e [.starts e deed, .ends e deed (.failed failure)]) []
    rw [htold]
    exact hfailed failure w' hrun
  · have hneeded : silent a w = ((.ok b', w'), []) := by rw [silent, hrun]
    cases b' with
    | false =>
      rw [doingIf, hneeded]
      refine ⟨[], .of_unspent hsaves fun m hm => (hboth _ m hm).2, ?_⟩
      show R _ w' (told? e [.starts e deed, .ends e deed .idle]) []
      rw [htold]
      exact hidle w' hrun
    | true =>
      rw [doingIf, hneeded]
      obtain ⟨ds, htally, hresult⟩ := hdone w' hrun hsaves.toRemains
      have hall := (Tally.nil hsaves).append hwithin htally
      refine ⟨ds, hall, ?_⟩
      show R _ _ (told? e [.starts e deed, .ends e deed (.of (b.execute w').1)]) (drawnFor e ds)
      rw [htold]
      exact hresult

theorem makes_tell {v : Value} : Makes spared ev e
    (fun _ w' own ids => w' = w ∧ own = [.makes e v] ∧ ids = [] ∧ v.isExternal)
    (tell (.makes e v)) w := by
  intro _ hmild
  have htells : (Scope.making e).Tells (.makes e v) :=
    Scope.tells_making rfl fun _ _ _ _ heq => by cases heq
  have htold : told? e [.makes e v] = [.makes e v] :=
    List.filter_eq_self.mpr (List.forall_mem_singleton.mpr (by simp [Mark.concerns]))
  exact ⟨[], .of_unspent (.refl w) (List.forall_mem_singleton.mpr htells), rfl, htold, rfl,
    hmild _ List.mem_cons_self⟩

end Making

/-! ## 2. Making the instance -/

/-- **What comes of assigning attributes**: no id is drawn, something is kept true, and it is told
if one cannot be assigned. -/
structure Assigned (e : EvaluationId) (S : World → Prop) (outcome : Except Failure Unit)
    (w' : World) (own : List Mark) (ids : List Draw) : Prop where
  undrawn : ids = []
  kept : S w'
  failed : ∀ failure, outcome = .error failure →
    ∃ name, .ends e (.assigns name) (.failed failure) ∈ own
  done : ∀ x, outcome = .ok x → ∀ name failure, .ends e (.assigns name) (.failed failure) ∉ own

/-- **What comes of constructing an instance** and assigning its attributes: no id is drawn, and it
is told whether it has been built. -/
structure Constructed (e : EvaluationId) (S : World → Prop) (outcome : Except Failure Value)
    (w' : World) (own : List Mark) (ids : List Draw) : Prop where
  undrawn : ids = []
  failed : ∀ failure, outcome = .error failure → ¬Built e own
  done : ∀ v, outcome = .ok v → Built e own ∧ .makes e v ∈ own ∧ v.isExternal ∧ S w'

section Constructing

variable (hO : O.Books spared c) {o : ObjectId} {v read : Value}

include hO

/-- The instance is made, and where nothing is tampered with, its attributes are handed on. -/
theorem makes_made (hwired : w.Wired c) {entries : List (Value × Value)}
    (ho : w.heap.get? o = some (.dict entries)) (hkeys : entries.map (·.1) = plan.names.map .text) :
    Makes spared c.evaluator e (fun outcome w' own ids => ids = [] ∧
      (∀ m ∈ own, ∃ v, m = .makes e v) ∧
      ∀ made, outcome = .ok made → .makes e made.1.1 ∈ own ∧ made.1.1.isExternal ∧
        (spared plan → w'.Hands o made.1.2 plan.names)) (made O e plan (.object o)) w := by
  have hinstance : Books spared c.evaluator .whole
      (fun made w' => spared plan → w'.Hands o made.2 plan.names)
      (constructInstance O plan (.object o)) w :=
    (books_constructInstance hO (.object o) hwired).result fun made w' hmade _ hspared => by
      have hrecords := records_constructInstance (O := O) plan (.object o) w
      rw [hmade] at hrecords
      exact hands_constructInstance (hO.leaves plan hspared) ho hkeys hrecords.symm
  refine hinstance.makes.bind (fun failure w' own ids h => ?_) fun made w₁ own ids _ h => ?_
  · obtain ⟨rfl, rfl, _⟩ := h
    exact ⟨rfl, fun _ hm => absurd hm List.not_mem_nil, fun _ h => by cases h⟩
  obtain ⟨rfl, rfl, hhands⟩ := h
  refine makes_tell.bind (fun failure w' own ids h => ?_) fun _ w₂ own ids _ h => ?_
  · obtain ⟨_, rfl, rfl, _⟩ := h
    exact ⟨rfl, fun m hm => ⟨_, List.mem_singleton.mp hm⟩, fun _ h => by cases h⟩
  obtain ⟨rfl, rfl, rfl, hv⟩ := h
  have hread : Keeps Frame.same (entriesOf (some (.object o))) := keeps_entriesOf _
  refine makes_silent_bind (keeps_entriesOf _) (fun failure w' _ => ?_) fun es w₃ hes _ =>
    makes_pure ?_
  · exact ⟨rfl, fun m hm => ⟨_, List.mem_singleton.mp hm⟩, fun _ h => by cases h⟩
  · have hsame := hread w₂
    rw [hes] at hsame
    obtain rfl : w₃ = w₂ := hsame
    refine ⟨rfl, fun m hm => ⟨_, List.mem_singleton.mp hm⟩, fun made' hmade' => ?_⟩
    cases hmade'
    exact ⟨List.mem_singleton.mpr rfl, hv, hhands _ rfl⟩

omit hO in
theorem makes_assign {ev : EvaluatorId} (hv : v.isExternal) (entry : Value × Value)
    (hhands : spared plan → w.Hands o read plan.names) :
    Makes spared ev e (Assigned e fun w' => spared plan → w'.Hands o read plan.names)
      (assign e v read entry) w := by
  have hfound : ∀ {outcome w'}, (lacks read entry.1).execute w = (outcome, w') →
      spared plan → w'.Hands o read plan.names := fun {outcome w'} hrun hspared => by
    have hsame := hands_lacks (hhands hspared) entry.1
    rw [hrun] at hsame
    rw [show w' = w from hsame]
    exact hhands hspared
  have hset : ∀ w', (spared plan → w'.Hands o read plan.names) → spared plan →
      ((assignTo v entry).execute w').2.Hands o read plan.names := fun w' hw' hspared => by
    unfold assignTo
    split
    · exact hands_setAttr (hw' hspared) _ _
    · exact hw' hspared
  refine makes_doingIf rfl (fun _ => rfl) (idles_lacks _ _).saves (fun failure w' hrun => ?_)
    (fun w' hrun => ?_) fun w' hrun _ => ⟨[], .of_unspent ((idles_assignTo hv _).saves w') ?_, rfl,
      hset w' (hfound hrun), fun failure hfailure => ?_, fun x hx name failure hmem => ?_⟩
  · refine ⟨rfl, hfound hrun, fun failure' heq => ?_, fun _ h => by cases h⟩
    cases heq
    exact ⟨nameOf entry, by simp⟩
  · exact ⟨rfl, hfound hrun, (fun _ h => by cases h), fun _ _ name failure hmem => by simp at hmem⟩
  · refine List.forall_mem_cons.mpr ⟨?_, List.forall_mem_singleton.mpr ?_⟩
    · exact Scope.tells_making rfl fun _ _ _ _ heq => by cases heq
    · exact Scope.tells_making rfl fun _ _ _ _ heq => by cases heq
  · rw [Ending.of_error hfailure]
    exact ⟨nameOf entry, by simp⟩
  · have hfine := Ending.fine_of_ok hx failure
    simp at hmem
    exact hfine hmem.2.symm

omit hO in
/-- **The other attributes are assigned**, one after another. -/
theorem makes_assigns {ev : EvaluatorId} (hv : v.isExternal) (entries : List (Value × Value))
    (hhands : spared plan → w.Hands o read plan.names) :
    Makes spared ev e (Assigned e fun w' => spared plan → w'.Hands o read plan.names)
      (entries.forM (assign e v read)) w := by
  induction entries generalizing w with
  | nil => exact makes_pure ⟨rfl, hhands, (fun _ h => by cases h), fun _ _ _ _ => List.not_mem_nil⟩
  | cons entry entries ih =>
    refine (makes_assign hv entry hhands).bind (fun failure w' own ids h => h)
      fun _ w₁ own ids _ h => ?_
    refine (ih h.kept).imp fun outcome w₂ own' ids' h' => ?_
    refine ⟨?_, h'.kept, fun failure hfailure => ?_, fun x hx name failure hmem => ?_⟩
    · rw [h.undrawn, h'.undrawn]
      rfl
    · obtain ⟨name, hname⟩ := h'.failed failure hfailure
      exact ⟨name, List.mem_append_right _ hname⟩
    · exact (List.mem_append.mp hmem).elim (h.done () rfl name failure) (h'.done x hx name failure)

/-- **The instance is constructed and assigned.** -/
theorem makes_constructWith (hwired : w.Wired c) {entries : List (Value × Value)}
    (ho : w.heap.get? o = some (.dict entries)) (hkeys : entries.map (·.1) = plan.names.map .text) :
    Makes spared c.evaluator e
      (Constructed e fun w' => spared plan → ∃ read, w'.Hands o read plan.names)
      (constructWith O e plan (.object o)) w := by
  have hnever : ∀ {inner : List Mark} {ending deed ending'}, (∀ m ∈ inner, ∃ v, m = .makes e v) →
      .ends e deed ending' ∈ Mark.starts e .constructs :: inner ++ [.ends e .constructs ending] →
      deed = .constructs ∧ ending' = ending := fun hinner hmem => by
    rcases List.mem_append.mp hmem with hmem | hmem
    · rcases List.mem_cons.mp hmem with heq | hmem
      · cases heq
      · obtain ⟨v, heq⟩ := hinner _ hmem
        cases heq
    · cases List.mem_singleton.mp hmem
      exact ⟨rfl, rfl⟩
  have hmade := makes_made hO (e := e) hwired ho hkeys
  have hdeed : (Mark.starts e .constructs).concerns = some e := rfl
  refine (hmade.doing hdeed fun _ => rfl).bind (fun failure w' own ids h => ?_)
    fun made w₁ own ids _ h => ?_
  · obtain ⟨inner, ⟨rfl, hinner, _⟩, rfl⟩ := h
    exact ⟨rfl, fun _ _ hbuilt => Ending.noConfusion (hnever hinner hbuilt.1).2, fun _ h => by cases h⟩
  obtain ⟨inner, ⟨rfl, hinner, hmade⟩, rfl⟩ := h
  obtain ⟨hmakes, hv, hhands⟩ := hmade made rfl
  refine (makes_assigns hv made.2 hhands).bind (fun failure w' own ids h => ?_)
    fun _ w₂ own ids _ h => makes_pure ?_
  · obtain ⟨name, hname⟩ := h.failed failure rfl
    exact ⟨h.undrawn, fun _ _ hbuilt => hbuilt.2 name failure (List.mem_append_right _ hname),
      fun _ h => by cases h⟩
  · rw [List.append_nil own]
    refine ⟨by rw [h.undrawn]; rfl, (fun _ h => by cases h), fun v hv' => ?_⟩
    cases hv'
    refine ⟨⟨?_, fun name failure hmem => ?_⟩, ?_, hv, fun hspared => ⟨_, h.kept hspared⟩⟩
    · exact List.mem_append_left _ (List.mem_append_right _ (List.mem_singleton.mpr rfl))
    · rcases List.mem_append.mp hmem with hmem | hmem
      · exact Deed.noConfusion (hnever hinner hmem).1
      · exact h.done () rfl name failure hmem
    · exact List.mem_append_left _ (List.mem_append_left _ (List.mem_cons_of_mem _ hmakes))

end Constructing

/-! ## 3. Numbering it -/

end Recorded

/-- **What comes of all that follows the assignment**: where it makes a stand-in, an id is drawn for
it unless an attribute is named `id`, and otherwise none is drawn. -/
structure Plan.Numbers (plan : Plan) (spared : Prop) (e : EvaluationId) (s : Strategy) (v : Value)
    (own : List Mark) (ids : List Draw) : Prop where
  assigned : ∀ name failure, .ends e (.assigns name) (.failed failure) ∉ own
  drawn : ids = [] ∧ (s = .buildStubbed → spared → "id" ∈ plan.names) ∨
    s = .buildStubbed ∧ ∃ id, ids = [⟨e, v, id⟩] ∧ (spared → "id" ∉ plan.names)

namespace Recorded

variable {α β : Type} {O : Observed} {spared : Plan → Prop} {c : Wiring} {s : Strategy}
  {e : EvaluationId} {w : World} {plan : Plan}

section Numbering

variable (hO : O.Books spared c) {o : ObjectId} {v : Value}

/-- **An id is drawn** where no attribute is named `id`. -/
theorem makes_numbers (hwired : w.Wired c) (hcomplete : w.Complete e) (hv : v.isExternal)
    (hhands : spared plan → ∃ read, w.Hands o read plan.names) :
    Makes spared c.evaluator e (fun _ _ => plan.Numbers (spared plan) e .buildStubbed v)
      (doingIf e .numbers (silent (lacks (.object o) (.text "id")))
        (silent (setAttr v "id" =<< drawId c.evaluator))) w := by
  have hfound : spared plan → (lacks (.object o) (.text "id")).execute w =
      (.ok !(plan.names.contains "id"), w) := fun hspared => by
    obtain ⟨read, hread⟩ := hhands hspared
    exact execute_lacks_name hread "id"
  have hnone : ∀ ending name failure, Mark.ends e (.assigns name) (.failed failure) ∉
      [.starts e .numbers, .ends e .numbers ending] := fun _ _ _ hmem => by simp at hmem
  refine makes_doingIf rfl (fun _ => rfl) (idles_lacks _ _).saves (fun failure w' hrun => ?_)
    (fun w' hrun => ?_) fun w' hrun hremains => ?_
  · refine ⟨hnone _, .inl ⟨rfl, fun _ hspared => ?_⟩⟩
    rw [hfound hspared] at hrun
    cases hrun
  · refine ⟨hnone _, .inl ⟨rfl, fun _ hspared => ?_⟩⟩
    rw [hfound hspared] at hrun
    simpa using congrArg Prod.fst hrun
  · obtain ⟨E, hE, _⟩ := (hwired.remains hremains).evaluator
    have hid : w'.nextId? c.evaluator = some E.nextId :=
      congrArg (Option.map Evaluator.nextId) hE
    have htells : ∀ m ∈ [Mark.starts e .numbers, .ends e .numbers
        (.of ((setAttr v "id" =<< drawId c.evaluator).execute w').1)], m.concerns = some e :=
      List.forall_mem_cons.mpr ⟨rfl, List.forall_mem_singleton.mpr rfl⟩
    have hnot : ∀ e' plan s cause, Mark.begins e' plan s cause ∉ [.starts e .numbers,
        .ends e .numbers (.of ((setAttr v "id" =<< drawId c.evaluator).execute w').1)] :=
      fun _ _ _ _ hmem => by simp at hmem
    refine ⟨[⟨e, v, E.nextId⟩], ?_, hnone _, .inr ⟨rfl, E.nextId, ?_, fun hspared => ?_⟩⟩
    · constructor
      case draws => exact .cons (.refl w') hid hv (.nil (.refl _))
      case told => exact List.singleton_sublist.mpr List.mem_cons_self
      case concerns =>
        intro m hm e' he'
        rw [htells m hm] at he'
        cases he'
        exact .inl rfl
      case begun => exact fun e' plan s cause hm => absurd hm (hnot e' plan s cause)
      case distinct => exact List.nodup_nil
      case origin => exact List.forall_mem_singleton.mpr (.inl rfl)
      case complete =>
        have hdrawn := World.remains_drawn w' c.evaluator hv
        exact List.forall_mem_singleton.mpr ((hcomplete.remains hremains).remains hdrawn)
      case barren => exact fun e' plan s _ _ hm => absurd hm (hnot e' plan s _)
      case numbered => exact fun e' plan s cause hm => absurd hm (hnot e' plan s cause)
      case order => exact fun e' plan s _ _ hm => absurd hm (hnot e' plan s _)
    · exact List.filter_eq_self.mpr (List.forall_mem_singleton.mpr (by simp))
    · rw [hfound hspared] at hrun
      simpa using congrArg Prod.fst hrun

include hO

/-- **All that follows the assignment.** -/
theorem makes_stages (hwired : w.Wired c) (hcomplete : w.Complete e) (hv : v.isExternal)
    (hhands : spared plan → ∃ read, w.Hands o read plan.names) :
    Makes spared c.evaluator e (fun _ _ => plan.Numbers (spared plan) e s v)
      (s.stages.forM (perform O e c.evaluator plan (.object o) v)) w := by
  by_cases hs : s = .buildStubbed
  · subst hs
    have hrest : ∀ w', w'.Wired c → Books spared c.evaluator .whole (fun _ _ => True)
        (persistenceMethods.forM (disable O e v) >>= fun _ =>
          [Stage.fire .afterStub].forM (perform O e c.evaluator plan (.object o) v)) w' :=
      fun w' hwired' => (books_forM _ fun method hmethod _ _ => books_disable hv hmethod).bind
        fun _ w₁ h₁ _ => books_forM _ fun stage hstage w₂ h₂ => by
          cases List.mem_singleton.mp hstage
          exact books_perform hO (hwired'.remains (h₁.trans h₂)) _ _ hv (fun h => by cases h)
    have hstages : Strategy.buildStubbed.stages.forM (perform O e c.evaluator plan (.object o) v) =
        doingIf e .numbers (silent (lacks (.object o) (.text "id")))
          (silent (setAttr v "id" =<< drawId c.evaluator)) >>= fun _ =>
        persistenceMethods.forM (disable O e v) >>= fun _ =>
          [Stage.fire .afterStub].forM (perform O e c.evaluator plan (.object o) v) := by
      rw [← bind_assoc]
      rfl
    rw [hstages]
    refine (makes_numbers hwired hcomplete hv hhands).bind (fun failure w' own ids h => h)
      fun _ w' own ids hremains h =>
        (hrest w' (hwired.remains hremains)).makes.imp fun outcome w'' own' ids' h' => ?_
    obtain ⟨rfl, rfl, _⟩ := h'
    rwa [List.append_nil, List.append_nil]
  · have hstages : Books spared c.evaluator .whole (fun _ _ => True)
        (s.stages.forM (perform O e c.evaluator plan (.object o) v)) w :=
      books_forM _ fun stage hstage w' hremains =>
        books_perform hO (hwired.remains hremains) _ _ hv fun hstub => by
          subst hstub
          cases s <;> simp [Strategy.stages] at hstage hs
    refine hstages.makes.imp fun outcome w' own ids h => ?_
    obtain ⟨rfl, rfl, _⟩ := h
    exact ⟨fun _ _ => List.not_mem_nil, .inl ⟨rfl, fun heq => absurd heq hs⟩⟩

end Numbering

end Recorded

/-! ## 4. Whole evaluations -/

section Counting

variable {spared : Plan → Prop} {ev : EvaluatorId} {scope : Scope} {e : EvaluationId} {s : Strategy}
  {plan : Plan} {marks : List Mark} {ds : List Draw} {w w₁ w' : World}

/-- **An evaluation that has been built** draws an id by what follows. -/
theorem Plan.Numbers.numbered {own own' : List Mark} {ids : List Draw} {v : Value} {spared : Prop}
    (h : plan.Numbers spared e s v own' ids) (hbuilt : Built e own) (hmakes : .makes e v ∈ own) :
    plan.Numbered spared e s (own ++ own') ids := by
  have hall : Built e (own ++ own') := ⟨List.mem_append_left _ hbuilt.1, fun name failure hmem =>
    (List.mem_append.mp hmem).elim (hbuilt.2 name failure) (h.assigned name failure)⟩
  rcases h.drawn with ⟨rfl, hid⟩ | ⟨hs, id, rfl, hid⟩
  · exact ⟨Nat.zero_le 1, fun _ hd => absurd hd List.not_mem_nil,
      fun hspared hs _ hnot => absurd (hid hs hspared) hnot⟩
  · refine ⟨List.length_filter_le _ _, fun d hd _ => ?_, fun _ _ _ _ =>
      ⟨_, List.mem_singleton.mpr rfl, rfl⟩⟩
    cases List.mem_singleton.mp hd
    exact ⟨hs, hall, List.mem_append_left _ hmakes, hid⟩

/-- That an evaluation has begun makes no difference to how it draws ids. -/
theorem Plan.Numbered.begun {spared : Prop} {cause : Option (EvaluationId × Association)}
    (h : plan.Numbered spared e s marks ds) :
    plan.Numbered spared e s (.begins e plan s cause :: marks) ds := by
  have hbuilt : Built e (.begins e plan s cause :: marks) ↔ Built e marks := by simp [Built]
  refine ⟨h.once, fun d hd he => ?_, fun hspared hs hall => h.draws hspared hs (hbuilt.mp hall)⟩
  obtain ⟨hs, hall, hmakes, hid⟩ := h.drawn d hd he
  exact ⟨hs, hbuilt.mpr hall, List.mem_cons_of_mem _ hmakes, hid⟩

/-- **An evaluation that begins** is tallied with all that it does. -/
theorem Tally.begin (hscope : scope.Within w) (hnew : w.Unspent w₁)
    (he : e.index = w.evaluations.size) (hlt : e.index < w₁.evaluations.size)
    (h : Tally spared ev (.making e) w₁ marks ds w')
    (hnumbered : plan.Numbered (spared plan) e s marks ds)
    {cause : Option (EvaluationId × Association)}
    (hcause : ∀ e₀ a, cause = some (e₀, a) → scope = .asking e₀) :
    Tally spared ev scope w (.begins e plan s cause :: marks) ds w' := by
  have hsize := hnew.size
  have hsize' := h.draws.remains.size
  constructor
  case draws => exact hnew.draws h.draws
  case told => exact h.told.cons _
  case concerns =>
    refine List.forall_mem_cons.mpr ⟨fun e' he' => ?_, fun m hm e' he' => ?_⟩
    · cases he'
      exact .inr ⟨by omega, by omega⟩
    · rcases h.concerns m hm e' he' with heq | hrange
      · cases heq
        exact .inr ⟨by omega, by omega⟩
      · exact .inr ⟨by omega, by omega⟩
  case begun =>
    intro e' plan' s' cause' hm
    rcases List.mem_cons.mp hm with heq | hm
    · cases heq
      omega
    · exact Nat.le_trans hsize (h.begun e' plan' s' cause' hm)
  case distinct =>
    refine List.nodup_cons.mpr ⟨fun hmem => ?_, h.distinct⟩
    obtain ⟨plan', s', cause', hm⟩ := mem_begins?.mp hmem
    exact absurd hlt (Nat.not_lt.mpr (h.begun e plan' s' cause' hm))
  case origin =>
    refine fun d hd => .inr ?_
    rcases h.origin d hd with heq | ⟨plan', s', cause', hm⟩
    · cases heq
      exact ⟨plan, s, cause, List.mem_cons_self⟩
    · exact ⟨plan', s', cause', List.mem_cons_of_mem _ hm⟩
  case complete => exact h.complete
  case barren =>
    intro e' plan' s' e₀ a hm
    rcases List.mem_cons.mp hm with heq | hm
    · cases heq
      exact .inl (hcause e₀ a rfl)
    · rcases h.barren e' plan' s' e₀ a hm with heq | hincomplete
      · cases heq
      · exact .inr fun hcomplete => hincomplete (hcomplete.remains hnew.toRemains)
  case numbered =>
    intro e' plan' s' cause' hm
    rcases List.mem_cons.mp hm with heq | hm
    · cases heq
      exact hnumbered.begun
    · refine (h.numbered e' plan' s' cause' hm).congr ?_ rfl
      have hne : e ≠ e' := fun heq => by
        have := h.begun e' plan' s' cause' hm
        rw [← heq] at this
        omega
      exact List.filter_cons_of_neg (by simpa [Mark.concerns] using hne)
  case order =>
    rintro e' plan' s' e₀ a hm d hd d' hd' rfl rfl
    rcases List.mem_cons.mp hm with heq | hm
    · -- What it was begun for was there before it, so it draws nothing now.
      exfalso
      cases heq
      rw [hcause _ a rfl] at hscope
      have hthere : d.evaluation.index < w.evaluations.size := hscope
      rcases h.concerns _ (h.starts_of_draw hd) _ rfl with heq | ⟨hle, _⟩
      · rw [← Scope.making.inj heq] at hthere
        omega
      · omega
    · exact h.order _ plan' s' _ a hm d hd d' hd' rfl rfl

end Counting

namespace Recorded

variable {O : Observed} {spared : Plan → Prop} {c : Wiring} {s : Strategy} {scope : Scope}
  {e : EvaluationId} {E : Evaluation} {w w' : World}

/-- What numbers by what is told of it numbers by all that is told. -/
theorem Makes.numbered {ev : EvaluatorId} {α : Type} {plan : Plan} {spared' : Prop} {r : Recorded α}
    (h : Makes spared ev e (fun _ _ => plan.Numbered spared' e s) r w)
    (hsize : e.index < w.evaluations.size) (hmild : Mild (r w).2) : ∃ ds,
    Tally spared ev (.making e) w (r w).2 ds (r w).1.2 ∧
      plan.Numbered spared' e s (r w).2 ds := by
  obtain ⟨ds, htally, hnumbered⟩ := h hsize hmild
  exact ⟨ds, htally, hnumbered.congr (by simp [told?]) (by simp [drawnFor])⟩

/-- What is read before an evaluation is made: the strategy, and the plan with the overrides. -/
def preface (O : Observed) (p : PlanId) (strategy overrides : Value)
    (constructor persistor : Option Value) : Recorded (Strategy × PlanId × Plan) := do
  let s ← silent (strategyOf strategy)
  let entries ← overrideEntries O overrides
  let p ← silent (applyOverrides p entries constructor persistor)
  let plan ← silent (getPlan p)
  return (s, p, plan)

section Evaluating

variable (hO : O.Books spared c)

include hO

/-- **An evaluation that has begun** numbers its instance as its plan has it. -/
theorem makes_lifecycle (hE : w.evaluation? e = some E) (hfresh : E.Fresh) (hruns : w.Runs c s e) :
    Makes spared c.evaluator e (fun _ _ => E.plan.Numbered (spared E.plan) e s)
      (lifecycle O e c.evaluator E.plan s) w := by
  have hnothing : E.plan.Numbered (spared E.plan) e s [] [] :=
    Plan.numbered_of_none rfl fun _ hbuilt => absurd hbuilt.1 List.not_mem_nil
  have hresolve : Books spared c.evaluator .whole
      (fun values w' => w'.Complete e ∧ values.keys = E.plan.names) (resolve O e) w :=
    (books_resolve hO hruns).result fun values w' h hcomplete =>
      ⟨hcomplete, keys_of_resolve hE hfresh (Prod.ext h rfl)⟩
  refine hresolve.makes.bind (fun failure w' own ids h => ?_) fun values w₁ own ids h₁ h => ?_
  · obtain ⟨rfl, rfl, _⟩ := h
    exact hnothing
  obtain ⟨rfl, rfl, hvalues⟩ := h
  obtain ⟨hcomplete, hkeys⟩ := hvalues values rfl
  refine makes_silent_bind (keeps_alloc _) (fun _ _ _ => hnothing)
    fun attributes w₂ halloc h₂ => ?_
  obtain ⟨o, rfl, ho⟩ := object_of_alloc halloc
  have hnames : (values.entries.map fun a => (Value.text a.1, a.2)).map (·.1) =
      E.plan.names.map .text := by
    rw [← hkeys, Table.keys, List.map_map, List.map_map]
    rfl
  have hruns₂ := hruns.remains (h₁.trans h₂)
  split
  · exact makes_pure hnothing
  · refine (makes_constructWith hO hruns₂.wired ho hnames).bind (fun failure w' own ids h => ?_)
      fun v w₃ own ids h₃ h => ?_
    · exact Plan.numbered_of_none (by rw [h.undrawn]; rfl) fun _ => h.failed failure rfl
    · obtain ⟨hbuilt, hmakes, hv, hhands⟩ := h.done v rfl
      rw [h.undrawn]
      refine (makes_stages hO (hruns₂.wired.remains h₃) (hcomplete.remains (h₂.trans h₃)) hv
        hhands).bind (fun failure w' own' ids' h' => h'.numbered hbuilt hmakes)
        fun _ w₄ own' ids' _ h' => makes_pure ?_
      simpa using h'.numbered hbuilt hmakes

omit hO in
/-- **Beginning an evaluation** makes it and tells nothing. -/
theorem beginEvaluation_effect (hwired : w.Wired c) {p : PlanId}
    {outcome : Except Failure EvaluationId} {marks : List Mark}
    (h : beginEvaluation O c.evaluator p s w = ((outcome, w'), marks)) :
    marks = [] ∧ w.Unspent w' ∧ ∀ e, outcome = .ok e → w'.Runs c s e ∧
      e.index = w.evaluations.size ∧ e.index < w'.evaluations.size ∧
      ∃ E, w'.evaluation? e = some E ∧ E.Fresh ∧ w.plan? p = some E.plan := by
  obtain ⟨E, hE, hsettings, hhook⟩ := hwired.evaluator
  obtain ⟨S, hS, hfollows⟩ := hwired.settings
  rw [beginEvaluation, silent_bind_ok (execute_getEvaluator hE), hsettings] at h
  rcases hplan : (getPlan p).execute w with ⟨failure | plan, w₁⟩
  · have hsame : ((getPlan p).execute w).2 = w := keeps_getPlan (F := .same) p w
    have hsilent : silent (getPlan p) w = ((.error failure, w₁), []) := by rw [silent, hplan]
    rw [bind_error hsilent] at h
    rw [hplan] at hsame
    cases h
    rw [show w' = w from hsame]
    exact ⟨rfl, .refl w, fun _ h => by cases h⟩
  · have hread : silent (getPlan p) w = ((.ok plan, w₁), []) := by rw [silent, hplan]
    obtain ⟨rfl, hfound⟩ := plan?_of_getPlan hread
    rw [silent_bind_ok hplan, followsParent, bind_assoc, silent_bind_ok (execute_getSettings hS),
      pure_bind] at h
    obtain ⟨E', hnew, hobeys, hE', rfl⟩ : ∃ E', silent (newEvaluation E') w₁ =
        ((outcome, w'), marks) ∧ E'.Obeys c s ∧
        E' = { E' with values := .own ∅, active := .own [] } ∧ E'.plan = plan :=
      ⟨_, h, ⟨rfl, rfl, hfollows, hhook⟩, rfl, rfl⟩
    cases hnew
    have hunspent := (adds_newEvaluation E' w₁).unspent
    have hthere : (w₁.evaluations.push E')[w₁.evaluations.size]? = some E' :=
      Array.getElem?_push_size
    refine ⟨rfl, hunspent, fun e he => ?_⟩
    cases he
    refine ⟨⟨hwired.remains hunspent.toRemains, E', ∅, [], ?_, hobeys⟩, rfl,
      (Array.getElem?_eq_some_iff.mp hthere).1, E', hthere, hobeys.declarations, hfound⟩
    rw [World.Stands, ← hE']
    exact hthere

theorem books_overrideEntries {overrides : Value} (h : overrides.isExternal) (hwired : w.Wired c) :
    Books spared c.evaluator .whole (fun _ _ => True) (overrideEntries O overrides) w := by
  refine books_get_bind ?_
  split
  · exact books_pure trivial
  · exact books_pure trivial
  · rw [getAttr_external O h]
    refine books_silent_bind (idles_getAttr O.host h (by decide) (by decide)).saves
      fun f w₁ _ h₁ => ?_
    refine (books_call hO f (by simp) (hwired.remains h₁)).bind fun items _ _ _ => ?_
    exact books_saves (idles_overridePairs items).saves

/-- What is read before an evaluation is made. -/
theorem books_preface (hwired : w.Wired c) (p : PlanId) (strategy : Value) {overrides : Value}
    (hoverrides : overrides.isExternal) (constructor persistor : Option Value) :
    Books spared c.evaluator .whole
      (fun x w' => w'.Wired c ∧ w'.plan? x.2.1 = some x.2.2)
      (preface O p strategy overrides constructor persistor) w := by
  refine books_silent_bind (keeps_strategyOf strategy) fun s w₁ _ h₁ => ?_
  have hwired₁ := hwired.remains h₁
  refine (books_overrideEntries hO hoverrides hwired₁).bind fun entries w₂ h₂ _ => ?_
  refine books_silent_bind (idles_applyOverrides _ _ _ _).saves fun p' w₃ _ h₃ => ?_
  refine books_silent_bind (keeps_getPlan p') fun plan w₄ hplan h₄ => books_pure ?_
  have hread : silent (getPlan p') w₃ = ((.ok plan, w₄), []) := by rw [silent, hplan]
  obtain ⟨rfl, hfound⟩ := plan?_of_getPlan hread
  exact ⟨hwired₁.remains (h₂.trans h₃), hfound⟩

variable (cause : Option (EvaluationId × Association))
  (hcause : ∀ e a, cause = some (e, a) → scope = .asking e)

include hcause

/-- An evaluation is begun and numbers its instance. -/
theorem books_begin (hwired : w.Wired c) {p : PlanId} {plan : Plan} (hplan : w.plan? p = some plan)
    (message : String) : Books spared c.evaluator scope (fun _ _ => True) (do
      let e ← beginEvaluation O c.evaluator p s
      silent (debug evaluatorLogger message)
      tell (.begins e plan s cause)
      lifecycle O e c.evaluator plan s) w := by
  intro hwithin hmild
  rcases hbegin : beginEvaluation O c.evaluator p s w with ⟨⟨failure | e, w₁⟩, marks⟩ <;>
    obtain ⟨rfl, hunspent, hbegun⟩ := beginEvaluation_effect hwired hbegin
  · rw [bind_error hbegin]
    exact ⟨[], .nil hunspent, fun _ h => by cases h⟩
  obtain ⟨hruns, hindex, hlt, E, hE, hfresh, hsame⟩ := hbegun e rfl
  obtain rfl := Option.some.inj (hplan.symm.trans hsame)
  rw [bind_ok hbegin] at hmild ⊢
  have hidle : w₁.Idle ((debug evaluatorLogger message).execute w₁).2 := (keeps_log _ _ _ : Idles _) w₁
  rcases hdebug : (debug evaluatorLogger message).execute w₁ with ⟨failure | _, w₂⟩ <;>
    rw [hdebug] at hidle
  · have hsilent : silent (debug evaluatorLogger message) w₁ = ((.error failure, w₂), []) := by
      rw [silent, hdebug]
    rw [bind_error hsilent]
    exact ⟨[], .nil (hunspent.trans hidle.added.unspent), fun _ h => by cases h⟩
  rw [silent_bind_ok hdebug] at hmild ⊢
  have hnew := hunspent.trans hidle.added.unspent
  have hE₂ : w₂.evaluation? e = some E := by
    rw [World.evaluation?, show w₂.evaluations = w₁.evaluations from hidle.evaluations]
    exact hE
  have hlt₂ := Nat.lt_of_lt_of_le hlt hidle.added.unspent.size
  obtain ⟨ds, htally, hnumbered⟩ := (makes_lifecycle hO hE₂ hfresh
    (hruns.remains hidle.added.unspent.toRemains)).numbered hlt₂ (mild_cons.mp hmild).2
  exact ⟨ds, .begin hwithin hnew hindex hlt₂ htally hnumbered hcause, fun _ _ => trivial⟩

/-- **The books of a whole evaluation**, for an association of another if it is a nested one. -/
theorem books_evaluate (hwired : w.Wired c) (p : PlanId) (strategy : Value)
    {overrides : Value} (hoverrides : overrides.isExternal) (constructor persistor : Option Value) :
    Books spared c.evaluator scope (fun _ _ => True)
      (evaluate O cause c.evaluator p strategy overrides constructor persistor) w := by
  have hevaluate : evaluate O cause c.evaluator p strategy overrides constructor persistor =
      (do
        let x ← preface O p strategy overrides constructor persistor
        let e ← beginEvaluation O c.evaluator x.2.1 x.1
        silent (debug evaluatorLogger ("Running " ++ x.1.name ++ " for factory " ++ x.2.2.factory
          ++ " with traits " ++ View.tupleText (x.2.2.traits.map Text.quoted)))
        tell (.begins e x.2.2 x.1 cause)
        lifecycle O e c.evaluator x.2.2 x.1) := by
    simp only [evaluate, prepare, preface, bind_assoc, pure_bind]
  rw [hevaluate]
  exact (books_preface hO hwired p strategy hoverrides constructor persistor).of_whole.bind
    fun x w₁ _ h => books_begin hO cause hcause h.1 h.2 _

/-- **The books of the run of an association.** -/
theorem books_runAssociated (hwired : w.Wired c) {r : RunnerId} (hr : c.runner = some r)
    (factory traits strategy : Value) (o : ObjectId) :
    Books spared c.evaluator scope (fun _ _ => True)
      (runAssociated O cause r factory traits (.object o) strategy) w := by
  refine books_silent_bind (idles_tellAssociation _ _ _ _).saves fun _ w₁ _ h₁ => ?_
  refine books_silent_bind (keeps_bind (keeps_registryOf r) fun _ => (idles_compile _ _ _).saves)
    fun p w₂ _ h₂ => ?_
  have hwired₂ := hwired.remains (h₁.trans h₂)
  rw [Books, silent_bind_ok (execute_evaluatorOf hwired₂ hr)]
  exact books_evaluate hO cause hcause hwired₂ p strategy rfl none none

end Evaluating

end Recorded

end TraitFactory
