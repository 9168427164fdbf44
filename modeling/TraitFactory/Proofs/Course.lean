import TraitFactory.Proofs.Evaluating
import TraitFactory.Proofs.RecordedRuns

/-!
# The course of an evaluation

An evaluation goes through its deeds in one order, which its strategy and its plan set. It gives a
result just when it has gone through all of them, and where one fails, it ends there with that
failure.
-/

namespace TraitFactory

open Action

/-! ## 1. Going through deeds -/

/-- **A deed that was done**: what was told meanwhile, and how it ended. -/
structure Segment where
  deed : Deed
  inside : List Mark
  ending : Ending

namespace Segment

/-- What an evaluation tells of a deed. -/
def marks (e : EvaluationId) (s : Segment) : List Mark :=
  .starts e s.deed :: s.inside ++ [.ends e s.deed s.ending]

/-- A deed that has not failed. -/
def Fine (s : Segment) : Prop := ∀ failure, s.ending ≠ .failed failure

end Segment

theorem Ending.fine_of_ok {α : Type} {outcome : Except Failure α} {x : α} (h : outcome = .ok x)
    (failure : Failure) : Ending.of outcome ≠ .failed failure := by
  rw [h]
  exact fun hfailed => by cases hfailed

theorem Ending.of_error {α : Type} {outcome : Except Failure α} {failure : Failure}
    (h : outcome = .error failure) : Ending.of outcome = .failed failure := by
  rw [h]
  rfl

/-- What an evaluation tells of some deeds, one after another. -/
def told (e : EvaluationId) (segments : List Segment) : List Mark :=
  segments.flatMap (·.marks e)

/-- **How far an evaluation went through some deeds**, by its outcome: to the end without a failure,
or up to one that failed, whose failure is the outcome. -/
inductive Through {α : Type} (deeds : List Deed) : Except Failure α → List Segment → Prop
  | whole {x : α} {segments : List Segment} (hdeeds : segments.map (·.deed) = deeds)
      (hfine : ∀ s ∈ segments, s.Fine) : Through deeds (.ok x) segments
  | cut {failure : Failure} {before : List Segment} {last : Segment}
      (hdeeds : (before ++ [last]).map (·.deed) <+: deeds) (hfine : ∀ s ∈ before, s.Fine)
      (hlast : last.ending = .failed failure) : Through deeds (.error failure) (before ++ [last])

/-- Whatever the outcome, the deeds that were done are the first ones. -/
theorem Through.isPrefix {α : Type} {deeds : List Deed} {outcome : Except Failure α}
    {segments : List Segment} (h : Through deeds outcome segments) :
    segments.map (·.deed) <+: deeds := by
  cases h with
  | whole hdeeds _ => exact hdeeds ▸ List.prefix_rfl
  | cut hdeeds _ _ => exact hdeeds

/-- What failed has failed, whatever was to follow. -/
theorem Through.extend {α β : Type} {deeds : List Deed} {failure : Failure}
    {segments : List Segment} (h : Through deeds (.error failure : Except Failure α) segments)
    (deeds' : List Deed) :
    Through (deeds ++ deeds') (.error failure : Except Failure β) segments := by
  cases h with
  | cut hdeeds hfine hlast =>
    exact .cut (hdeeds.trans (List.prefix_append deeds deeds')) hfine hlast

/-- Where the first deeds were all done, it goes on with those that follow. -/
theorem Through.append {α β : Type} {deeds deeds' : List Deed} {x : α}
    {outcome : Except Failure β} {segments segments' : List Segment}
    (h : Through deeds (.ok x : Except Failure α) segments) (h' : Through deeds' outcome segments') :
    Through (deeds ++ deeds') outcome (segments ++ segments') := by
  cases h with
  | whole hdeeds hfine =>
    have hall : ∀ {rest}, (∀ s ∈ rest, s.Fine) → ∀ s ∈ segments ++ rest, s.Fine :=
      fun hrest => List.forall_mem_append.mpr ⟨hfine, hrest⟩
    cases h' with
    | whole hdeeds' hfine' =>
      exact .whole (by rw [List.map_append, hdeeds, hdeeds']) (hall hfine')
    | @cut _ before last hdeeds' hfine' hlast =>
      rw [← List.append_assoc]
      refine .cut ?_ (hall hfine') hlast
      rw [List.append_assoc, List.map_append, hdeeds]
      exact (List.prefix_append_right_inj _).mpr hdeeds'

theorem told_append (e : EvaluationId) (segments segments' : List Segment) :
    told e (segments ++ segments') = told e segments ++ told e segments' := List.flatMap_append

namespace Recorded

variable {α β : Type} {e : EvaluationId} {deeds deeds' : List Deed} {w : World}

/-- **A recording goes through deeds**: it tells of the first of them, one after another. -/
def GoesThrough (e : EvaluationId) (deeds : List Deed) (r : Recorded α) (w : World) : Prop :=
  ∃ segments, (r w).2 = told e segments ∧ Through deeds (r w).1.1 segments

theorem goesThrough_ok {r : Recorded α} {x : α} {w' : World} (h : r w = ((.ok x, w'), [])) :
    GoesThrough e [] r w := by
  refine ⟨[], by rw [h]; rfl, ?_⟩
  rw [h]
  exact .whole rfl fun _ hs => absurd hs List.not_mem_nil

theorem goesThrough_pure (x : α) : GoesThrough e [] (pure x : Recorded α) w :=
  goesThrough_ok (show (pure x : Recorded α) w = ((.ok x, w), []) from rfl)

theorem GoesThrough.bind {r : Recorded α} {f : α → Recorded β} (h : GoesThrough e deeds r w)
    (hf : ∀ x w' marks, r w = ((.ok x, w'), marks) → GoesThrough e deeds' (f x) w') :
    GoesThrough e (deeds ++ deeds') (r >>= f) w := by
  obtain ⟨segments, hmarks, hthrough⟩ := h
  rcases hr : r w with ⟨⟨failure | x, w'⟩, marks⟩ <;> rw [hr] at hmarks hthrough
  · rw [GoesThrough, bind_error hr]
    exact ⟨segments, hmarks, hthrough.extend deeds'⟩
  · obtain ⟨segments', hmarks', hthrough'⟩ := hf x w' marks hr
    rw [GoesThrough, bind_ok hr]
    refine ⟨segments ++ segments', ?_, hthrough.append hthrough'⟩
    rw [told_append, ← hmarks, ← hmarks']

/-- An action that tells nothing and gives a result is no deed. -/
theorem goesThrough_silent_bind {a : Action α} {f : α → Recorded β} {x : α} {w' : World}
    (h : a.execute w = (.ok x, w')) (hf : GoesThrough e deeds (f x) w') :
    GoesThrough e deeds (silent a >>= f) w := by
  have hsilent : silent a w = ((.ok x, w'), []) := by rw [silent, h]
  refine (goesThrough_ok hsilent).bind fun x₁ w₁ marks h₁ => ?_
  rw [hsilent] at h₁
  cases h₁
  exact hf

/-- One deed, told of by its marks. -/
theorem goesThrough_single {r : Recorded α} {s : Segment} (hmarks : (r w).2 = s.marks e)
    (hdone : ∀ x, (r w).1.1 = .ok x → s.Fine)
    (hfailed : ∀ failure, (r w).1.1 = .error failure → s.ending = .failed failure) :
    GoesThrough e [s.deed] r w := by
  refine ⟨[s], hmarks.trans (List.append_nil _).symm, ?_⟩
  rcases houtcome : (r w).1.1 with failure | x
  · have hnone : ∀ s' ∈ ([] : List Segment), s'.Fine := fun _ hs => absurd hs List.not_mem_nil
    exact .cut List.prefix_rfl hnone (hfailed failure houtcome)
  · exact .whole rfl fun s' hs => List.mem_singleton.mp hs ▸ hdone x houtcome

theorem goesThrough_doing (deed : Deed) (r : Recorded α) :
    GoesThrough e [deed] (r.doing e deed) w :=
  goesThrough_single (s := ⟨deed, (r w).2, .of (r w).1.1⟩) rfl
    (fun _ h => Ending.fine_of_ok h) fun _ h => Ending.of_error h

theorem goesThrough_doingIf (deed : Deed) (needed : Recorded Bool) (r : Recorded Unit) :
    GoesThrough e [deed] (doingIf e deed needed r) w := by
  rcases hneeded : needed w with ⟨⟨failure | b, w'⟩, marks⟩
  · refine goesThrough_single (s := ⟨deed, marks, .failed failure⟩) ?_ (fun x h => ?_)
      fun failure' h => ?_ <;> rw [doingIf, hneeded] at *
    · rfl
    · cases h
    · cases h
      rfl
  · cases b with
    | true =>
      refine goesThrough_single (s := ⟨deed, marks ++ (r w').2, .of (r w').1.1⟩) ?_
        (fun x h => ?_) fun failure' h => ?_ <;> rw [doingIf, hneeded] at *
      · rfl
      · exact Ending.fine_of_ok h
      · exact Ending.of_error h
    | false =>
      refine goesThrough_single (s := ⟨deed, marks, .idle⟩) ?_ (fun x h failure hfailed => ?_)
        fun failure' h => ?_
      · rw [doingIf, hneeded]
        rfl
      · cases hfailed
      · rw [doingIf, hneeded] at h
        cases h

theorem goesThrough_forM {f : α → Recorded Unit} {deedsOf : α → List Deed} (xs : List α)
    (h : ∀ x w, GoesThrough e (deedsOf x) (f x) w) :
    GoesThrough e (xs.flatMap deedsOf) (xs.forM f) w := by
  induction xs generalizing w with
  | nil => exact goesThrough_pure ()
  | cons x xs ih => exact (h x w).bind fun _ w' _ _ => ih

theorem goesThrough_mapM {f : α → Recorded β} {deedsOf : α → List Deed} (xs : List α)
    (h : ∀ x w, GoesThrough e (deedsOf x) (f x) w) :
    GoesThrough e (xs.flatMap deedsOf) (xs.mapM f) w := by
  induction xs generalizing w with
  | nil => exact goesThrough_pure []
  | cons x xs ih =>
    rw [List.mapM_cons, List.flatMap_cons, ← List.append_nil (xs.flatMap deedsOf)]
    exact (h x w).bind fun y w' _ _ => (ih (w := w')).bind fun _ _ _ _ => goesThrough_pure _

end Recorded

/-! ## 2. The course -/

namespace Plan

/-- The calls of the callbacks for an event, in plan order. -/
def callsFor (plan : Plan) (event : Event) : List Deed := (plan.callbacksFor event).map .calls

/-- **The course of an evaluation**: the attributes are resolved, then the instance is constructed,
then the attributes that are listed are assigned, and then what the strategy asks for follows. -/
def course (plan : Plan) (listed : List String) : Strategy → List Deed
  | .attributesFor => plan.names.map .resolves
  | .build =>
    plan.names.map .resolves ++ .constructs :: listed.map .assigns ++ plan.callsFor .afterBuild
  | .buildStubbed =>
    plan.names.map .resolves ++ .constructs :: listed.map .assigns
      ++ .numbers :: persistenceMethods.map .disables ++ plan.callsFor .afterStub
  | .create =>
    plan.names.map .resolves ++ .constructs :: listed.map .assigns ++ plan.callsFor .afterBuild
      ++ plan.callsFor .beforeCreate ++ .persists :: plan.callsFor .afterCreate

end Plan

/-- The deeds of a stage. -/
def Stage.deeds (plan : Plan) : Stage → List Deed
  | .stub => .numbers :: persistenceMethods.map .disables
  | .fire event => plan.callsFor event
  | .persist => [.persists]

/-- The course is set by the stages of the strategy. -/
theorem Plan.course_eq (plan : Plan) (listed : List String) {s : Strategy}
    (hs : s ≠ .attributesFor) : plan.course listed s = plan.names.map .resolves ++
      (.constructs :: listed.map .assigns ++ s.stages.flatMap (Stage.deeds plan)) := by
  cases s with
  | attributesFor => exact absurd rfl hs
  | _ => simp [course, Strategy.stages, Stage.deeds]

namespace Plan

variable {plan : Plan} {listed : List String} {s : Strategy}

theorem not_mem_callsFor (plan : Plan) (event : Event) : .persists ∉ plan.callsFor event := by
  simp [callsFor]

theorem create_of_persists (plan : Plan) (h : .persists ∈ plan.course listed s) : s = .create := by
  cases s <;> simp [course, not_mem_callsFor] at h ⊢

theorem count_persists_course (plan : Plan) (listed : List String) (s : Strategy) :
    (plan.course listed s).count .persists ≤ 1 := by
  have hnames : ∀ (f : String → Deed) (names : List String), (∀ name, f name ≠ .persists) →
      (names.map f).count .persists = 0 := fun f names hf =>
    List.count_eq_zero.mpr fun h => by
      obtain ⟨name, _, hname⟩ := List.mem_map.mp h
      exact hf name hname
  have hresolves := hnames .resolves plan.names fun _ => Deed.noConfusion
  have hassigns := hnames .assigns listed fun _ => Deed.noConfusion
  have hdisables := hnames .disables persistenceMethods fun _ => Deed.noConfusion
  have hcalls : ∀ event, (plan.callsFor event).count .persists = 0 := fun event =>
    List.count_eq_zero.mpr (plan.not_mem_callsFor event)
  cases s <;> simp [course, List.count_append, hresolves, hassigns, hdisables, hcalls]

end Plan

namespace Recorded

variable {O : Observed} {e : EvaluationId} {w : World}

theorem goesThrough_stub (ev : EvaluatorId) (v attributes : Value) :
    GoesThrough e (.numbers :: persistenceMethods.map .disables) (stub O e ev v attributes) w := by
  rw [List.map_eq_flatMap]
  exact (goesThrough_doingIf .numbers _ _).bind fun _ w' _ _ =>
    goesThrough_forM persistenceMethods fun method w => goesThrough_doingIf (.disables method) _ _

theorem goesThrough_fire (plan : Plan) (event : Event) (v context : Value) :
    GoesThrough e (plan.callsFor event) (fire O e plan event v context) w := by
  rw [Plan.callsFor, List.map_eq_flatMap]
  exact goesThrough_forM _ fun c w => goesThrough_doing (.calls c) _

theorem goesThrough_perform (ev : EvaluatorId) (plan : Plan) (attributes v : Value)
    (stage : Stage) (w : World) :
    GoesThrough e (stage.deeds plan) (perform O e ev plan attributes v stage) w := by
  cases stage with
  | stub => exact goesThrough_stub ev v attributes
  | fire event => exact goesThrough_fire plan event v _
  | persist => exact goesThrough_doing .persists _

end Recorded

/-! ## 3. What is left to be assigned -/

/-- **The frame of what leaves dictionaries with the keys that they have.** -/
def Frame.tables : Frame where
  rel w w' := ∀ o entries, w.heap.get? o = some (.dict entries) →
    ∃ entries', w'.heap.get? o = some (.dict entries') ∧ entries'.map (·.1) = entries.map (·.1)
  refl _ _ entries h := ⟨entries, h, rfl⟩
  trans h h' o entries hentries := by
    obtain ⟨entries₁, h₁, hkeys₁⟩ := h o entries hentries
    obtain ⟨entries₂, h₂, hkeys₂⟩ := h' o entries₁ h₁
    exact ⟨entries₂, h₂, hkeys₂.trans hkeys₁⟩

/-- What makes the instances of a plan neither adds keys to a dictionary that is there nor takes
any away. -/
def Plan.Spares (host : Host) (plan : Plan) : Prop :=
  ∀ arguments, Keeps .tables (host.call (plan.constructor.getD plan.model) arguments)

/-- The frame of what leaves one object as it is. -/
def Frame.at (o : ObjectId) : Frame where
  rel w w' := ∀ x, w.heap.get? o = some x → w'.heap.get? o = some x
  refl _ _ h := h
  trans h h' x hx := h' x (h x hx)

namespace Action

variable {host : Host} {plan : Plan} {w w' : World}

theorem keeps_tables_of_heap {α : Type} {a : Action α}
    (h : ∀ w o x, w.heap.get? o = some x → (a.execute w).2.heap.get? o = some x) :
    Keeps .tables a := fun w o entries hentries => ⟨entries, h w o _ hentries, rfl⟩

theorem get?_alloc (x y : Object) {o : ObjectId} (h : w.heap.get? o = some y) :
    ((alloc x).execute w).2.heap.get? o = some y := by
  have hlt : o.index < w.heap.objects.size := (Array.getElem?_eq_some_iff.mp h).1
  show (w.heap.objects.push x)[o.index]? = some y
  rw [Array.getElem?_push_lt hlt]
  exact (Array.getElem?_eq_getElem hlt).symm.trans h

/-- What is allocated is where its value says. -/
theorem object_of_alloc {x : Object} {v : Value} (h : (alloc x).execute w = (.ok v, w')) :
    ∃ o, v = .object o ∧ w'.heap.get? o = some x := by
  cases h
  exact ⟨_, rfl, Array.getElem?_push_size⟩

theorem keeps_tables_alloc (x : Object) : Keeps .tables (alloc x) :=
  keeps_tables_of_heap fun _ _ y h => get?_alloc x y h

/-- What there is stays as it is while an instance is made. -/
theorem get?_construct (m : Model) (arguments : List Value) (keywords : List (String × Value))
    {o : ObjectId} {x : Object} (h : w.heap.get? o = some x) :
    ((construct m arguments keywords).execute w).2.heap.get? o = some x := by
  have hkeeps : Keeps (.at o) (construct m arguments keywords) := by
    have halloc : ∀ y, Keeps (.at o) (alloc y) := fun y w _ hx => get?_alloc y _ hx
    unfold construct
    split
    · exact keeps_wrongType
    · split
      · exact keeps_fail _
      · exact keeps_bind (keeps_mapM _ fun name => keeps_bind (halloc _) fun v => keeps_pure _)
          fun lists => halloc _
  exact hkeeps w x h

theorem keeps_tables_construct (m : Model) : Keeps .tables (construct m [] []) :=
  keeps_tables_of_heap fun _ _ _ h => get?_construct m [] [] h

theorem keeps_readOf {F : Frame} (snapshot : Value) : Keeps F (readOf snapshot) := by
  refine keeps_bind (keeps_get_bind fun w => ?_) fun found => ?_
  · split <;> exact F.refl w
  · split <;> exact keeps_pure _

theorem keeps_constructInstance (h : plan.Spares host) (attributes : Value) :
    Keeps .tables (constructInstance host plan attributes) := by
  refine keeps_bind (keeps_tables_alloc _) fun read => ?_
  unfold Plan.Spares at h
  cases hconstructor : plan.constructor with
  | none =>
    rw [hconstructor] at h
    refine keeps_bind ?_ fun v => keeps_pure _
    show Keeps _ (instanceOf host plan.model)
    unfold instanceOf
    split
    · exact keeps_tables_construct _
    · exact keeps_tables_construct _
    · exact h []
  | some fn =>
    rw [hconstructor] at h
    exact keeps_bind (keeps_tables_alloc _) fun snapshot =>
      keeps_bind (keeps_noting _ (h _)) fun v => keeps_bind (keeps_readOf _) fun _ => keeps_pure _

theorem fst_of_readAmong {e : EvaluationId} {count : Nat} {name : String}
    {entry : String × Value} (h : (readAmong host e count name).execute w = (.ok entry, w')) :
    entry.1 = name := by
  obtain ⟨v, w₁, _, h⟩ := ok_of_execute_bind h
  obtain ⟨evaluation, w₂, _, h⟩ := ok_of_execute_bind h
  obtain ⟨w₃, w₄, _, h⟩ := ok_of_execute_bind h
  split at h
  · split at h
    · cases h
      rfl
    · cases h
  · cases h
    rfl

theorem map_fst_of_mapM {e : EvaluationId} {count : Nat} {names : List String}
    {entries : List (String × Value)}
    (h : (names.mapM (readAmong host e count)).execute w = (.ok entries, w')) :
    entries.map (·.1) = names := by
  induction names generalizing w w' entries with
  | nil =>
    cases h
    rfl
  | cons name names ih =>
    rw [List.mapM_cons] at h
    obtain ⟨entry, w₁, hentry, h⟩ := ok_of_execute_bind h
    obtain ⟨rest, w₂, hrest, h⟩ := ok_of_execute_bind h
    cases h
    rw [List.map_cons, fst_of_readAmong hentry, ih hrest]

end Action

/-! ## 4. A whole evaluation -/

/-- An evaluation that has just begun. -/
def Evaluation.Fresh (E : Evaluation) : Prop := E.declarations = none

namespace Recorded

variable {O : Observed} {e : EvaluationId} {E : Evaluation} {w w' : World} {plan : Plan}

theorem execute_names (hE : w.evaluation? e = some E) (hfresh : E.Fresh) :
    (do namesToResolve (← getEvaluation e) : Action (List String)).execute w =
      (.ok E.plan.names, w) := by
  have hnames : (namesToResolve E).execute w = (.ok E.plan.names, w) := by
    rw [namesToResolve, hfresh]
    rfl
  rw [execute_bind_ok (execute_getEvaluation hE), hnames]

theorem goesThrough_resolve (hE : w.evaluation? e = some E) (hfresh : E.Fresh) :
    GoesThrough e (E.plan.names.map .resolves) (resolve O e) w := by
  refine goesThrough_silent_bind (execute_names hE hfresh) ?_
  rw [List.map_eq_flatMap, ← List.append_nil (List.flatMap _ _)]
  exact (goesThrough_mapM _ fun name w => goesThrough_doing (.resolves name) _).bind
    fun _ _ _ _ => goesThrough_pure _

theorem keys_of_resolve (hE : w.evaluation? e = some E) (hfresh : E.Fresh) {values : Table Value}
    {marks : List Mark} (h : resolve O e w = ((.ok values, w'), marks)) :
    values.keys = E.plan.names := by
  have hrecords := records_resolve (O := O) e w
  rw [h] at hrecords
  rw [Action.resolve, ← bind_assoc] at hrecords
  rw [execute_bind_ok (execute_names hE hfresh)] at hrecords
  obtain ⟨entries, w₁, hentries, hvalues⟩ := ok_of_execute_bind hrecords.symm
  cases hvalues
  exact map_fst_of_mapM hentries

/-- What is listed after the construction: the names of the attributes. -/
theorem listed_of_made {o : ObjectId} {entries entries' : List (Value × Value)}
    {v : Value × Value} {marks : List Mark} (hspares : plan.Spares O.host)
    (ho : w.heap.get? o = some (.dict entries))
    (h : made O e plan (.object o) w = ((.ok (v, entries'), w'), marks)) :
    entries'.map nameOf = entries.map nameOf := by
  have hrecords := records_made (O := O) e plan (.object o) w
  have hkeeps := keeps_constructInstance hspares (.object o) w
  rw [h] at hrecords
  obtain ⟨v', w₁, hv, hentries⟩ := ok_of_execute_bind hrecords.symm
  obtain ⟨entries₁, w₂, hentries₁, hpair⟩ := ok_of_execute_bind hentries
  cases hpair
  rw [hv] at hkeeps
  obtain ⟨entries₂, ho₂, hkeys⟩ := hkeeps o entries ho
  have hread : (entriesOf (some (.object o))).execute w₁ = (.ok entries₂, w₁) := by
    rw [entriesOf, execute_bind_ok (execute_get w₁)]
    simp only [World.entries?, ho₂]
    rfl
  cases hread.symm.trans hentries₁
  have hnames : ∀ es : List (Value × Value), es.map nameOf =
      (es.map (·.1)).map fun key => key.asText?.getD "" := fun es => by
    rw [List.map_map]
    rfl
  rw [hnames, hnames, hkeys]

variable (O e plan) in
/-- The construction and the assignments. -/
theorem goesThrough_constructWith {o : ObjectId} {entries : List (Value × Value)}
    (ho : w.heap.get? o = some (.dict entries)) :
    ∃ listed, GoesThrough e (.constructs :: listed.map .assigns)
        (constructWith O e plan (.object o)) w ∧
      (plan.Spares O.host → listed = entries.map nameOf) := by
  have hassigns : ∀ (v read : Value) (entries' : List (Value × Value)) (w' : World),
      GoesThrough e ((entries'.map nameOf).map .assigns) (entries'.forM (assign e v read)) w' := by
    intro v read entries' w'
    rw [List.map_map, List.map_eq_flatMap]
    exact goesThrough_forM _ fun entry w => goesThrough_doingIf (.assigns (nameOf entry)) _ _
  rcases hmade : doing e .constructs (made O e plan (.object o)) w with
    ⟨⟨failure | ⟨⟨v, read⟩, entries'⟩, w'⟩, marks⟩
  · refine ⟨entries.map nameOf, ?_, fun _ => rfl⟩
    refine (goesThrough_doing .constructs _).bind fun x w' marks h => ?_
    rw [hmade] at h
    cases h
  · refine ⟨entries'.map nameOf, ?_, fun hspares => ?_⟩
    · refine (goesThrough_doing .constructs _).bind fun x w' marks h => ?_
      rw [hmade] at h
      cases h
      rw [← List.append_nil (List.map _ _)]
      exact (hassigns v read entries' _).bind fun _ _ _ _ => goesThrough_pure v
    · have hfst : (made O e plan (.object o) w).1 = (.ok ((v, read), entries'), w') :=
        congrArg Prod.fst hmade
      exact listed_of_made hspares ho (Prod.ext hfst rfl)

/-- What follows once the attributes have been resolved. -/
theorem goesThrough_afterwards (hE : w.evaluation? e = some E) (hfresh : E.Fresh)
    (ev : EvaluatorId) (s : Strategy) {values : Table Value} {marks : List Mark} {w₁ : World}
    (hresolve : resolve O e w = ((.ok values, w₁), marks)) :
    ∃ listed deeds, E.plan.course listed s = E.plan.names.map .resolves ++ deeds ∧
      GoesThrough e deeds (do
        let attributes ← silent (Parts.dict (values.entries.map fun a => (.text a.1, a.2)))
        if s = .attributesFor then return attributes
        else
          let v ← constructWith O e E.plan attributes
          s.stages.forM (perform O e ev E.plan attributes v)
          return v) w₁ ∧
      (E.plan.Spares O.host → listed = E.plan.names) := by
  let entries : List (Value × Value) := values.entries.map fun a => (.text a.1, a.2)
  have hdict : (Parts.dict entries).execute w₁ = (.ok (.object ⟨w₁.heap.size⟩),
      ((Parts.dict entries).execute w₁).2) := rfl
  have ho : ((Parts.dict entries).execute w₁).2.heap.get? ⟨w₁.heap.size⟩ =
      some (.dict entries) := Array.getElem?_push_size
  by_cases hs : s = .attributesFor
  · subst hs
    exact ⟨E.plan.names, [], (List.append_nil _).symm,
      goesThrough_silent_bind hdict (goesThrough_pure _), fun _ => rfl⟩
  · obtain ⟨listed, hgoes, hlisted⟩ := goesThrough_constructWith O e E.plan ho
    refine ⟨listed, _, E.plan.course_eq listed hs, goesThrough_silent_bind hdict ?_,
      fun hspares => ?_⟩
    · rw [if_neg hs]
      refine hgoes.bind fun v w₂ _ _ => ?_
      rw [← List.append_nil (List.flatMap _ _)]
      exact (goesThrough_forM _ fun stage w => goesThrough_perform ev E.plan _ v stage w).bind
        fun _ _ _ _ => goesThrough_pure v
    · rw [hlisted hspares, ← keys_of_resolve hE hfresh hresolve, Table.keys, List.map_map]
      rfl

/-- **An evaluation that has begun goes through its course**: first it resolves its attributes. -/
theorem goesThrough_lifecycle (hE : w.evaluation? e = some E) (hfresh : E.Fresh)
    (ev : EvaluatorId) (s : Strategy) : ∃ listed before after,
      (resolve O e w).2 = told e before ∧
      before.map (·.deed) <+: E.plan.names.map .resolves ∧
      (lifecycle O e ev E.plan s w).2 = told e (before ++ after) ∧
      Through (E.plan.course listed s) (lifecycle O e ev E.plan s w).1.1 (before ++ after) ∧
      (E.plan.Spares O.host → listed = E.plan.names) := by
  obtain ⟨before, hbefore, hthrough⟩ := goesThrough_resolve (O := O) hE hfresh
  rcases hresolve : resolve O e w with ⟨⟨failure | values, w₁⟩, marks⟩ <;>
    rw [hresolve] at hbefore hthrough
  · have hlifecycle : lifecycle O e ev E.plan s w = ((.error failure, w₁), marks) :=
      bind_error hresolve
    refine ⟨E.plan.names, before, [], hbefore, hthrough.isPrefix, ?_, ?_, fun _ => rfl⟩ <;>
      rw [List.append_nil, hlifecycle]
    · exact hbefore
    · by_cases hs : s = .attributesFor
      · subst hs
        rw [Plan.course, ← List.append_nil (List.map _ _)]
        exact hthrough.extend []
      · rw [E.plan.course_eq _ hs]
        exact hthrough.extend _
  · obtain ⟨listed, deeds, hcourse, ⟨after, hafter, hgoes⟩, hlisted⟩ :=
      goesThrough_afterwards hE hfresh ev s hresolve
    refine ⟨listed, before, after, hbefore, hthrough.isPrefix, ?_, ?_, hlisted⟩ <;>
      rw [lifecycle, bind_ok hresolve]
    · rw [told_append, ← hbefore, ← hafter]
    · rw [hcourse]
      exact hthrough.append hgoes

theorem plan?_of_getPlan {p : PlanId} {marks : List Mark}
    (h : silent (getPlan p) w = ((.ok plan, w'), marks)) : w' = w ∧ w.plan? p = some plan := by
  have hexecute : (getPlan p).execute w = (.ok plan, w') := congrArg Prod.fst h
  obtain ⟨w₁, w₂, hget, hplan⟩ := ok_of_execute_bind hexecute
  cases hget
  split at hplan
  · rename_i found hfound
    cases hplan
    exact ⟨rfl, hfound⟩
  · cases hplan

theorem evaluator?_of_getEvaluator {ev : EvaluatorId} {evaluator : Evaluator} {marks : List Mark}
    (h : silent (getEvaluator ev) w = ((.ok evaluator, w'), marks)) :
    w' = w ∧ w.evaluator? ev = some evaluator := by
  have hexecute : (getEvaluator ev).execute w = (.ok evaluator, w') := congrArg Prod.fst h
  obtain ⟨w₁, w₂, hget, hevaluator⟩ := ok_of_execute_bind hexecute
  cases hget
  split at hevaluator
  · rename_i found hfound
    cases hevaluator
    exact ⟨rfl, hfound⟩
  · cases hevaluator

/-- **What has been prepared is an evaluation that has just begun**, of the plan that was read: it has
computed nothing yet. -/
theorem stands_of_prepare {ev : EvaluatorId} {p : PlanId} {strategy overrides : Value}
    {constructor persistor : Option Value} {s : Strategy} {marks : List Mark}
    (h : prepare O ev p strategy overrides constructor persistor w =
      ((.ok (s, plan, e), w'), marks)) :
    ∃ E, w'.Stands e E ∅ [] ∧ E.Fresh ∧ E.plan = plan := by
  obtain ⟨s', w₁, _, _, _, hentries, _⟩ := ok_of_bind h
  obtain ⟨entries, w₂, _, _, _, hoverrides, _⟩ := ok_of_bind hentries
  obtain ⟨p', w₃, _, _, _, hread, _⟩ := ok_of_bind hoverrides
  obtain ⟨plan', w₄, _, _, hplan, hmake, _⟩ := ok_of_bind hread
  obtain ⟨e', w₅, _, _, hbegin, hend, _⟩ := ok_of_bind hmake
  obtain ⟨_, w₆, _, _, hlog, hdone, _⟩ := ok_of_bind hend
  obtain ⟨evaluator, w₇, _, _, hevaluator, hsecond, _⟩ := ok_of_bind hbegin
  obtain ⟨plan₂, w₈, _, _, hplan₂, hfollows, _⟩ := ok_of_bind hsecond
  obtain ⟨follows, w₉, _, _, _, hnew, _⟩ := ok_of_bind hfollows
  cases hdone
  cases hnew
  cases hlog
  obtain ⟨rfl, hplan⟩ := plan?_of_getPlan hplan
  obtain ⟨rfl, _⟩ := evaluator?_of_getEvaluator hevaluator
  obtain ⟨rfl, hplan₂⟩ := plan?_of_getPlan hplan₂
  -- Both times the plan was read, it was read in one world.
  cases hplan.symm.trans hplan₂
  exact ⟨⟨p', plan, .keyword (.strategy s), evaluator.associate, follows, .own ∅, .own [], none, ∅⟩,
    Array.getElem?_push_size, rfl, rfl⟩

theorem evaluation_of_prepare {ev : EvaluatorId} {p : PlanId} {strategy overrides : Value}
    {constructor persistor : Option Value} {s : Strategy} {marks : List Mark}
    (h : prepare O ev p strategy overrides constructor persistor w =
      ((.ok (s, plan, e), w'), marks)) :
    ∃ E, w'.evaluation? e = some E ∧ E.Fresh ∧ E.plan = plan := by
  obtain ⟨E, hE, hfresh, hplan⟩ := stands_of_prepare h
  exact ⟨_, hE, hfresh, hplan⟩

end Recorded

end TraitFactory
