import TraitFactory.Proofs.Beside
import TraitFactory.Proofs.RecordedRuns

/-!
# Mild runs

A run is mild when no function that is called in it meddles with evaluation and no instance that is
made in it is a part of evaluation. Whatever a mild run does, all that evaluates is upheld by it.
Once the attributes of an evaluation are all computed, what it goes on to do computes nothing any
more.
-/

namespace TraitFactory

open Action

/-! ## 1. Mild marks -/

/-- Whether a mark tells of nothing that could upset evaluation. -/
def Mark.isMild : Mark → Bool
  | .makes _ v => v.isExternal
  | .meddles => false
  | _ => true

/-- **What is told of a mild run.** -/
def Mild (marks : List Mark) : Prop := ∀ m ∈ marks, m.isMild

instance (marks : List Mark) : Decidable (Mild marks) :=
  inferInstanceAs (Decidable (∀ m ∈ marks, m.isMild))

theorem mild_append {marks marks' : List Mark} :
    Mild (marks ++ marks') ↔ Mild marks ∧ Mild marks' := List.forall_mem_append

theorem mild_cons {m : Mark} {marks : List Mark} :
    Mild (m :: marks) ↔ m.isMild ∧ Mild marks := List.forall_mem_cons

/-- **A property of what is told** that what tells nothing has, and one tale after another. -/
structure Tale (P : List Mark → Prop) : Prop where
  nil : P []
  append : ∀ {marks marks'}, P marks → P marks' → P (marks ++ marks')

theorem tale_nil : Tale (· = []) := ⟨rfl, fun h h' => by rw [h, h']; rfl⟩

theorem tale_forall (Q : Mark → Prop) : Tale fun marks => ∀ m ∈ marks, Q m :=
  ⟨fun _ h => absurd h List.not_mem_nil, fun h h' => List.forall_mem_append.mpr ⟨h, h'⟩⟩

namespace Recorded

variable {α β : Type} {P : List Mark → Prop} {w : World}

/-- **What a recording tends to**: as long as what it tells is mild, it upholds all that evaluates,
and what it tells has a property. -/
def Tends (P : List Mark → Prop) (r : Recorded α) (w : World) : Prop :=
  Mild (r w).2 → w.Upheld (r w).1.2 ∧ P (r w).2

theorem Tends.imp {Q : List Mark → Prop} {r : Recorded α} (h : Tends P r w)
    (hPQ : ∀ marks, P marks → Q marks) : Tends Q r w := fun hmild =>
  ⟨(h hmild).1, hPQ _ (h hmild).2⟩

variable (hP : Tale P)

include hP

theorem tends_pure (x : α) : Tends P (pure x) w := fun _ => ⟨.refl w, hP.nil⟩

theorem tends_silent {a : Action α} (h : Upholds a) : Tends P (silent a) w :=
  fun _ => ⟨h w, hP.nil⟩

theorem tends_bind_of {r : Recorded α} {f : α → Recorded β} (h : Tends P r w)
    (hf : ∀ x w' marks, r w = ((.ok x, w'), marks) → Mild marks → w.Upheld w' →
      Tends P (f x) w') : Tends P (r >>= f) w := by
  intro hmild
  rcases hr : r w with ⟨⟨failure | x, w'⟩, marks⟩
  · rw [bind_error hr] at hmild ⊢
    rw [Tends, hr] at h
    exact h hmild
  · rw [bind_ok hr] at hmild ⊢
    rw [Tends, hr] at h
    obtain ⟨hmarks, hrest⟩ := mild_append.mp hmild
    obtain ⟨hupheld, htold⟩ := h hmarks
    obtain ⟨hupheld', htold'⟩ := hf x w' marks hr hmarks hupheld hrest
    exact ⟨hupheld.trans hupheld', hP.append htold htold'⟩

theorem Tends.bind {r : Recorded α} {f : α → Recorded β} (h : Tends P r w)
    (hf : ∀ x w', w.Upheld w' → Tends P (f x) w') : Tends P (r >>= f) w :=
  tends_bind_of hP h fun x w' _ _ _ => hf x w'

/-- What is done first tells nothing. -/
theorem tends_silent_bind {a : Action α} {f : α → Recorded β} (ha : Upholds a)
    (hf : ∀ x w', w.Upheld w' → Tends P (f x) w') : Tends P (silent a >>= f) w :=
  (tends_silent hP ha).bind hP hf

theorem tends_get_bind {f : World → Recorded β} (hf : Tends P (f w) w) :
    Tends P (silent get >>= f) w := by
  refine tends_bind_of hP (tends_silent hP keeps_get) fun x w' marks h _ _ => ?_
  cases h
  exact hf

omit hP in
theorem Tends.attempt {r : Recorded α} (h : Tends P r w) : Tends P r.attempt w := h

theorem Tends.recover {r : Recorded α} {handle : Failure → Recorded α} (h : Tends P r w)
    (hh : ∀ failure w', w.Upheld w' → Tends P (handle failure) w') :
    Tends P (r.recover handle) w := by
  intro hmild
  rcases hr : r w with ⟨⟨failure | x, w'⟩, marks⟩ <;> rw [Tends, hr] at h <;>
    rw [Recorded.recover, hr] at hmild ⊢
  · obtain ⟨hmarks, hrest⟩ := mild_append.mp hmild
    obtain ⟨hupheld, htold⟩ := h hmarks
    obtain ⟨hupheld', htold'⟩ := hh failure w' hupheld hrest
    exact ⟨hupheld.trans hupheld', hP.append htold htold'⟩
  · exact h hmild

theorem Tends.noting {r : Recorded α} (note : String) (h : Tends P r w) :
    Tends P (r.noting note) w := h.recover hP fun _ _ _ => tends_silent hP (keeps_throw _)

theorem Tends.doing {r : Recorded α} {e : EvaluationId} {deed : Deed} (h : Tends P r w)
    (hstarts : P [.starts e deed]) (hends : ∀ ending, P [.ends e deed ending]) :
    Tends P (r.doing e deed) w := by
  intro hmild
  obtain ⟨hmarks, _⟩ := mild_append.mp (mild_cons.mp hmild).2
  obtain ⟨hupheld, htold⟩ := h hmarks
  exact ⟨hupheld, hP.append (hP.append hstarts htold) (hends _)⟩

theorem Tends.doingIf {needed : Recorded Bool} {r : Recorded Unit} {e : EvaluationId} {deed : Deed}
    (h : Tends P needed w) (hr : ∀ w', w.Upheld w' → Tends P r w') (hstarts : P [.starts e deed])
    (hends : ∀ ending, P [.ends e deed ending]) : Tends P (Recorded.doingIf e deed needed r) w := by
  intro hmild
  rcases hneeded : needed w with ⟨⟨failure | b, w'⟩, marks⟩ <;> rw [Tends, hneeded] at h
  · rw [Recorded.doingIf, hneeded] at hmild ⊢
    obtain ⟨hmarks, _⟩ := mild_append.mp (mild_cons.mp hmild).2
    exact ⟨(h hmarks).1, hP.append (hP.append hstarts (h hmarks).2) (hends _)⟩
  · cases b with
    | true =>
      rw [Recorded.doingIf, hneeded] at hmild ⊢
      obtain ⟨hboth, _⟩ := mild_append.mp (mild_cons.mp hmild).2
      obtain ⟨hmarks, hrest⟩ := mild_append.mp hboth
      obtain ⟨hupheld, htold⟩ := h hmarks
      obtain ⟨hupheld', htold'⟩ := hr w' hupheld hrest
      exact ⟨hupheld.trans hupheld',
        hP.append (hP.append (hP.append hstarts htold) htold') (hends _)⟩
    | false =>
      rw [Recorded.doingIf, hneeded] at hmild ⊢
      obtain ⟨hmarks, _⟩ := mild_append.mp (mild_cons.mp hmild).2
      exact ⟨(h hmarks).1, hP.append (hP.append hstarts (h hmarks).2) (hends _)⟩

theorem tends_forM {f : α → Recorded Unit} (xs : List α)
    (h : ∀ x ∈ xs, ∀ w', w.Upheld w' → Tends P (f x) w') : Tends P (xs.forM f) w := by
  induction xs generalizing w with
  | nil => exact tends_pure hP ()
  | cons x xs ih =>
    refine (h x List.mem_cons_self w (.refl w)).bind hP fun _ w₁ h₁ => ?_
    exact ih fun x hx w₂ h₂ => h x (List.mem_cons_of_mem _ hx) w₂ (h₁.trans h₂)

/-- **What a recording yields** besides: a property of its result in the world that it leaves. -/
def Yields (P : List Mark → Prop) (Q : α → World → Prop) (r : Recorded α) (w : World) : Prop :=
  Tends P r w ∧ (Mild (r w).2 → ∀ x, (r w).1.1 = .ok x → Q x (r w).1.2)

section Yielding

variable {Q : α → World → Prop} {R : β → World → Prop}

theorem yields_pure {x : α} (h : Q x w) : Yields P Q (pure x) w := by
  refine ⟨tends_pure hP x, fun _ y hy => ?_⟩
  cases hy
  exact h

theorem Yields.bind {r : Recorded α} {f : α → Recorded β} (h : Yields P Q r w)
    (hf : ∀ x w', w.Upheld w' → Q x w' → Yields P R (f x) w') : Yields P R (r >>= f) w := by
  have hresult : ∀ x w' marks, r w = ((.ok x, w'), marks) → Mild marks → Q x w' := by
    intro x w' marks hr hmarks
    have hQ := h.2
    rw [hr] at hQ
    exact hQ hmarks x rfl
  refine ⟨tends_bind_of hP h.1 fun x w' marks hr hmarks hupheld =>
    (hf x w' hupheld (hresult x w' marks hr hmarks)).1, fun hmild y hy => ?_⟩
  have hends : (r >>= f) w = ((.ok y, ((r >>= f) w).1.2), ((r >>= f) w).2) :=
    Prod.ext (Prod.ext hy rfl) rfl
  obtain ⟨x, w₁, marks₁, marks₂, hr, hfx, hmarks⟩ := ok_of_bind hends
  rw [hmarks] at hmild
  obtain ⟨hmild₁, hmild₂⟩ := mild_append.mp hmild
  have htends := h.1
  rw [Tends, hr] at htends
  have hlast := (hf x w₁ (htends hmild₁).1 (hresult x w₁ marks₁ hr hmild₁)).2
  rw [hfx] at hlast
  exact hlast hmild₂ y rfl

omit hP in
theorem Tends.yields {r : Recorded α} (h : Tends P r w) : Yields P (fun _ _ => True) r w :=
  ⟨h, fun _ _ _ => trivial⟩

theorem Tends.yieldsBind {r : Recorded α} {f : α → Recorded β} (h : Tends P r w)
    (hf : ∀ x w', w.Upheld w' → Yields P R (f x) w') : Yields P R (r >>= f) w :=
  h.yields.bind hP fun x w' hupheld _ => hf x w' hupheld

theorem yields_silent_bind {a : Action α} {f : α → Recorded β} (ha : Upholds a)
    (hf : ∀ x w', w.Upheld w' → Yields P R (f x) w') : Yields P R (silent a >>= f) w :=
  (tends_silent hP ha).yieldsBind hP hf

theorem Yields.doing {r : Recorded α} {e : EvaluationId} {deed : Deed} (h : Yields P Q r w)
    (hstarts : P [.starts e deed]) (hends : ∀ ending, P [.ends e deed ending]) :
    Yields P Q (r.doing e deed) w := by
  refine ⟨h.1.doing hP hstarts hends, fun hmild x hx => h.2 ?_ x hx⟩
  exact (mild_append.mp (mild_cons.mp hmild).2).1

/-- Each of some recordings yields what is true from then on, so in the end all of it is true. -/
theorem yields_mapM {f : α → Recorded β} {S : α → World → Prop}
    (hS : ∀ x {w w'}, S x w → w.Upheld w' → S x w') (xs : List α)
    (h : ∀ x ∈ xs, ∀ w', w.Upheld w' → Yields P (fun _ => S x) (f x) w') :
    Yields P (fun _ w' => ∀ x ∈ xs, S x w') (xs.mapM f) w := by
  induction xs generalizing w with
  | nil => exact yields_pure hP fun _ hx => absurd hx List.not_mem_nil
  | cons x xs ih =>
    rw [List.mapM_cons]
    refine (h x List.mem_cons_self w (.refl w)).bind hP fun y w₁ h₁ hx => ?_
    have hrest := ih fun x hx w₂ h₂ => h x (List.mem_cons_of_mem _ hx) w₂ (h₁.trans h₂)
    -- What the first yields is still true when the others are through.
    have hboth : Yields P (fun _ w' => S x w' ∧ ∀ x ∈ xs, S x w') (xs.mapM f) w₁ :=
      ⟨hrest.1, fun hmild ys hys => ⟨hS x hx (hrest.1 hmild).1, hrest.2 hmild ys hys⟩⟩
    exact hboth.bind hP fun ys w₂ _ hall => yields_pure hP (List.forall_mem_cons.mpr hall)

end Yielding

end Recorded

/-! ## 2. Complete evaluations -/

namespace World

variable {w w' : World} {e : EvaluationId} {E : Evaluation} {t : Table Value}
  {active : List String}

/-- An evaluation upheld stands where it stood, with more values. -/
theorem Upheld.stands (h : w.Upheld w') (hE : w.Stands e E t active) :
    ∃ t', w'.Stands e E t' active ∧ t.Holds t' := by
  obtain ⟨E', hE', hupheld⟩ := h.evaluations e.index _ hE
  obtain ⟨t', ht', hholds⟩ := hupheld.values t rfl
  refine ⟨t', ?_, hholds⟩
  rw [World.Stands, World.evaluation?, hE', hupheld.rest, ht']

/-- **An evaluation whose attributes have all been computed.** -/
def Complete (w : World) (e : EvaluationId) : Prop :=
  ∃ E t active, w.Stands e E t active ∧ E.declarations = none ∧
    ∀ name ∈ E.plan.names, (t.get? name).isSome

theorem Complete.upheld (h : w.Complete e) (hupheld : w.Upheld w') : w'.Complete e := by
  obtain ⟨E, t, active, hE, hdeclarations, hall⟩ := h
  obtain ⟨t', hE', hholds⟩ := hupheld.stands hE
  refine ⟨E, t', active, hE', hdeclarations, fun name hname => ?_⟩
  obtain ⟨v, hv⟩ := Option.isSome_iff_exists.mp (hall name hname)
  rw [hholds name v hv]
  rfl

end World

/-- What the arguments of a call let a function read. -/
def context? (arguments : List Value) : Option EvaluationId :=
  match arguments.getLast? with
  | some (.context e) => some e
  | _ => none

theorem context?_external {v : Value} (h : v.isExternal) : context? [v] = none := by
  cases v with
  | context e => cases h
  | _ => rfl

/-- **Surroundings in which nothing is computed when all has been computed**: as long as calls are
mild, they tell nothing unless they are handed an evaluation that is not complete. -/
def Observed.Discreet (O : Observed) : Prop :=
  ∀ f arguments w, arguments.length ≤ 2 → (∀ e, context? arguments = some e → w.Complete e) →
    Recorded.Tends (· = []) (O.call f arguments) w

/-- Whether a deed follows the resolution of the attributes under a strategy. -/
def Deed.closes (s : Strategy) : Deed → Bool
  | .resolves _ | .computes _ => false
  | .constructs | .assigns _ | .calls _ => s ≠ .attributesFor
  | .numbers | .disables _ => s = .buildStubbed
  | .persists => s = .create

/-- Whether a mark tells of what an evaluation does under a strategy once its attributes have been
resolved. -/
def Mark.closes (s : Strategy) (e : EvaluationId) : Mark → Bool
  | .starts e' deed | .ends e' deed _ => e' = e && deed.closes s
  | .makes e' _ => e' = e && s ≠ .attributesFor
  | _ => false

/-- **What an evaluation tells once its attributes have been resolved.** -/
def Closing (s : Strategy) (e : EvaluationId) (marks : List Mark) : Prop :=
  ∀ m ∈ marks, m.closes s e

theorem tale_closing (s : Strategy) (e : EvaluationId) : Tale (Closing s e) := tale_forall _

theorem closing_single {s : Strategy} {e : EvaluationId} {m : Mark} (h : m.closes s e) :
    Closing s e [m] := fun _ hm => List.mem_singleton.mp hm ▸ h

namespace Recorded

variable {O : Observed} {s : Strategy} {e : EvaluationId} {w : World} {plan : Plan}

section Deeds

variable {α : Type} {deed : Deed} (hdeed : deed.closes s)

include hdeed

theorem closing_starts : Closing s e [.starts e deed] :=
  closing_single (by simpa [Mark.closes] using hdeed)

theorem closing_ends (ending : Ending) : Closing s e [.ends e deed ending] :=
  closing_single (by simpa [Mark.closes] using hdeed)

theorem Tends.closingDeed {r : Recorded α} (h : Tends (Closing s e) r w) :
    Tends (Closing s e) (r.doing e deed) w :=
  h.doing (tale_closing s e) (closing_starts hdeed) (closing_ends hdeed)

theorem Tends.closingDeedIf {needed : Recorded Bool} {r : Recorded Unit}
    (h : Tends (Closing s e) needed w) (hr : ∀ w', w.Upheld w' → Tends (Closing s e) r w') :
    Tends (Closing s e) (Recorded.doingIf e deed needed r) w :=
  h.doingIf (tale_closing s e) hr (closing_starts hdeed) (closing_ends hdeed)

end Deeds

theorem Tends.closing {α : Type} {r : Recorded α} (h : Tends (· = []) r w) :
    Tends (Closing s e) r w := h.imp fun _ hnil => hnil ▸ (tale_closing s e).nil

theorem getAttr_external (O : Observed) {v : Value} (h : v.isExternal) (name : String) :
    getAttr O v name = silent (Action.getAttr O.host v name) := by
  cases v with
  | context e => cases h
  | _ => rfl

theorem idles_construct (m : Model) : Idles (construct m [] []) := by
  unfold construct
  split
  · exact keeps_wrongType
  · split
    · exact keeps_fail _
    · exact keeps_bind (keeps_mapM _ fun name => keeps_bind (keeps_alloc _) fun _ => keeps_pure _)
        fun _ => keeps_alloc _

theorem idles_idAfter (id : Value) : Idles (idAfter id) := by
  unfold idAfter
  split
  · exact keeps_newFloat _
  · exact keeps_pure _
  · exact keeps_pure _

theorem upholds_drawId (ev : EvaluatorId) : Upholds (drawId ev) := by
  have hdraw : ∀ (w : World) id, w.Upheld (w.modifyEvaluator ev fun E => { E with nextId := id }) :=
    fun w id => { World.Upheld.refl w with
      evaluators := (World.Upheld.refl w).evaluators.modify
        (fun _ _ _ hxy hyz => ⟨hyz.1.trans hxy.1, hyz.2.trans hxy.2⟩) _ fun _ _ => ⟨rfl, rfl⟩ }
  exact keeps_bind (keeps_getEvaluator ev) fun _ => keeps_bind (idles_idAfter _).upholds fun next =>
    keeps_bind (keeps_modify fun w => hdraw w next) fun _ => keeps_pure _

theorem keeps_readOf {F : Frame} (snapshot : Value) : Keeps F (readOf snapshot) := by
  refine keeps_bind (keeps_snapshot? _) fun found => ?_
  split <;> exact keeps_pure _

theorem idles_lacks (read name : Value) : Idles (lacks read name) :=
  keeps_bind (keeps_contains _ _) fun _ => keeps_pure _

/-- Saying which association is built. -/
theorem idles_tellAssociation (logger : String) (factory traits strategy : Value) :
    Idles (debugValues logger do
      return "Building association " ++ (← plainText factory) ++ " with traits "
        ++ (← quoted traits) ++ " via " ++ (← plainText strategy)) :=
  idles_debugValues _ <| keeps_bind (keeps_written _ _) fun _ =>
    keeps_bind (keeps_written _ _) fun _ => keeps_bind (keeps_written _ _) fun _ => keeps_pure _

/-! ### What is done with an instance that is no part of evaluation -/

section External

variable {v : Value} (hv : v.isExternal)

include hv

theorem idles_assignTo (entry : Value × Value) : Idles (assignTo v entry) := by
  unfold assignTo
  split
  · exact idles_setAttr hv _ _
  · exact keeps_wrongType

theorem idles_refuse (method : String) : Idles (do
    setAttr v method (← newFunction (refusal ((← get).typeName v) method))) :=
  keeps_bind keeps_get fun _ => keeps_bind (idles_newFunction _) fun _ => idles_setAttr hv _ _

/-- A persistence method of an instance is none of the names that evaluation answers to. -/
theorem idles_getPersistence (host : Host) {method : String} (hmethod : method ∈ persistenceMethods) :
    Idles (Action.getAttr host v method) := by
  have hnames : method ≠ "__dict__" ∧ method ≠ "name" := by
    simp only [persistenceMethods, List.mem_cons, List.not_mem_nil, or_false] at hmethod
    rcases hmethod with rfl | rfl | rfl | rfl <;> decide
  exact idles_getAttr host hv hnames.1 hnames.2

end External

section Closing

variable (hO : O.Discreet)

include hO

theorem tends_call (f : Value) {arguments : List Value} (hlength : arguments.length ≤ 2)
    (hcontext : context? arguments = none) : Tends (· = []) (O.call f arguments) w :=
  hO f arguments w hlength fun e he => by rw [hcontext] at he; cases he

/-- A call with something that is no context. -/
theorem tends_callOn (f : Value) {v : Value} (hcontext : context? [v] = none) :
    Tends (· = []) (O.call f [v]) w := tends_call hO f (Nat.le_succ 1) hcontext

theorem tends_instanceOf (model : Value) : Tends (· = []) (instanceOf O model) w := by
  unfold instanceOf
  split
  · exact tends_silent tale_nil (idles_construct _).upholds
  · exact tends_silent tale_nil (idles_construct _).upholds
  · exact tends_call hO _ (Nat.zero_le _) rfl

theorem tends_constructInstance (attributes : Value) :
    Tends (· = []) (constructInstance O plan attributes) w := by
  refine tends_silent_bind tale_nil (keeps_alloc _) fun read w₁ _ => ?_
  split
  · exact (tends_instanceOf hO _).bind tale_nil fun v _ _ => tends_pure tale_nil _
  · refine tends_bind_of tale_nil (tends_silent tale_nil (keeps_alloc _))
      fun snapshot w₂ marks hsnapshot _ _ => ?_
    cases hsnapshot
    refine ((tends_callOn hO _ rfl).noting tale_nil _).bind tale_nil fun v _ _ => ?_
    exact tends_silent_bind tale_nil (keeps_readOf _) fun _ _ _ => tends_pure tale_nil _

variable (hs : s ≠ .attributesFor)

include hs

theorem tends_made (attributes : Value) : Tends (Closing s e) (made O e plan attributes) w := by
  have hP := tale_closing s e
  refine (tends_constructInstance hO attributes).closing.bind hP fun v w₁ _ => ?_
  have htell : Tends (Closing s e) (tell (.makes e v.1)) w₁ := fun _ =>
    ⟨.refl w₁, closing_single (by simp [Mark.closes, hs])⟩
  exact htell.bind hP fun _ _ _ => tends_silent_bind hP (keeps_entriesOf _) fun _ _ _ =>
    tends_pure hP _

/-- An instance that has been made is told, so it is no part of evaluation in a mild run. -/
theorem yields_made (attributes : Value) :
    Yields (Closing s e) (fun made _ => made.1.1.isExternal) (made O e plan attributes) w := by
  refine ⟨tends_made hO hs attributes, fun hmild made hmade => ?_⟩
  have hends : Recorded.made O e plan attributes w =
      ((.ok made, (Recorded.made O e plan attributes w).1.2),
        (Recorded.made O e plan attributes w).2) := Prod.ext (Prod.ext hmade rfl) rfl
  obtain ⟨v₁, w₁, marks₁, marks₂, _, htold, hmarks⟩ := ok_of_bind hends
  obtain ⟨_, w₂, marks₃, marks₄, htell, hentries, hmarks'⟩ := ok_of_bind htold
  obtain ⟨_, w₃, _, _, _, hpair, _⟩ := ok_of_bind hentries
  cases hpair
  cases htell
  refine hmild (.makes e v₁.1) ?_
  rw [hmarks, hmarks']
  simp

omit hO in
theorem tends_assign {v : Value} (hv : v.isExternal) (read : Value) (entry : Value × Value) :
    Tends (Closing s e) (assign e v read entry) w := by
  have hP := tale_closing s e
  exact (tends_silent hP (idles_lacks _ _).upholds).closingDeedIf (by simp [Deed.closes, hs])
    fun _ _ => tends_silent hP (idles_assignTo hv _).upholds

omit hO hs in
theorem tends_disable (hs : s = .buildStubbed) {v : Value} (hv : v.isExternal) {method : String}
    (hmethod : method ∈ persistenceMethods) : Tends (Closing s e) (disable O e v method) w := by
  have hP := tale_closing s e
  have hget : Idles (Action.getAttr O.host v method) := idles_getPersistence hv O.host hmethod
  refine Tends.closingDeedIf (by simp [Deed.closes, hs]) ?_ fun _ _ =>
    tends_silent hP (idles_refuse hv method).upholds
  unfold hasAttr
  rw [getAttr_external O hv]
  refine (tends_silent hP hget.upholds).attempt.bind hP fun outcome _ _ => ?_
  split
  · exact tends_pure hP _
  · refine tends_silent hP (Idles.upholds ?_)
    split
    · exact keeps_pure _
    · exact keeps_throw _

omit hO hs in
theorem tends_stub (hs : s = .buildStubbed) (ev : EvaluatorId) {v : Value} (hv : v.isExternal)
    (attributes : Value) : Tends (Closing s e) (stub O e ev v attributes) w := by
  have hP := tale_closing s e
  have hset : Upholds (setAttr v "id" =<< drawId ev) :=
    keeps_bind (upholds_drawId ev) fun _ => (idles_setAttr hv _ _).upholds
  refine ((tends_silent hP (idles_lacks _ _).upholds).closingDeedIf (by simp [Deed.closes, hs])
    fun _ _ => tends_silent hP hset).bind hP fun _ w₁ _ => ?_
  exact tends_forM hP _ fun method hmethod _ _ => tends_disable hs hv hmethod

omit hs in
theorem tends_persist {v : Value} (hv : v.isExternal) :
    Tends (· = []) (persist O plan v) w := by
  unfold persist
  split
  · exact ((tends_callOn hO _ (context?_external hv)).noting tale_nil _).bind tale_nil
      fun _ _ _ => tends_pure tale_nil _
  · have hget : Idles (Action.getAttr O.host v "save") :=
      idles_getAttr O.host hv (by decide) (by decide)
    have hfound : Tends (· = []) (getAttrOr O v "save" .null) w := by
      unfold getAttrOr
      rw [getAttr_external O hv]
      refine (tends_silent tale_nil hget.upholds).recover tale_nil fun failure _ _ =>
        tends_silent tale_nil (Idles.upholds ?_)
      split
      · exact keeps_pure _
      · exact keeps_throw _
    refine hfound.bind tale_nil fun save w₁ _ => ?_
    split
    · exact tends_silent tale_nil (Idles.upholds (keeps_bind keeps_get fun _ => keeps_throw _))
    · exact (tends_call hO _ (Nat.zero_le _) rfl).bind tale_nil fun _ _ _ => tends_pure tale_nil _

omit hs in
theorem tends_invoke (hcomplete : w.Complete e) (fn : Value) {v : Value} (hv : v.isExternal) :
    Tends (· = []) (invoke O fn v (.context e)) w := by
  refine tends_get_bind tale_nil ?_
  split
  · refine hO fn [v, .context e] w (Nat.le_refl _) fun e' he' => ?_
    cases he'
    exact hcomplete
  · exact tends_callOn hO fn (context?_external hv)

theorem tends_fire (hcomplete : w.Complete e) (event : Event) {v : Value} (hv : v.isExternal) :
    Tends (Closing s e) (fire O e plan event v (.context e)) w := by
  have hP := tale_closing s e
  refine tends_forM hP _ fun c _ w₁ h₁ => Tends.closingDeed (by simp [Deed.closes, hs]) ?_
  refine (((tends_invoke hO (hcomplete.upheld h₁) c.fn hv).noting tale_nil _).bind tale_nil
    fun _ _ _ => ?_).closing
  exact tends_pure tale_nil _

theorem tends_perform (hcomplete : w.Complete e) (ev : EvaluatorId) (attributes : Value)
    {v : Value} (hv : v.isExternal) {stage : Stage} (hstage : stage ∈ s.stages) :
    Tends (Closing s e) (perform O e ev plan attributes v stage) w := by
  cases stage with
  | stub =>
    have hstubbed : s = .buildStubbed := by cases s <;> simp [Strategy.stages] at hstage ⊢
    exact tends_stub hstubbed ev hv attributes
  | fire event => exact tends_fire hO hs hcomplete event hv
  | persist =>
    have hcreate : s = .create := by cases s <;> simp [Strategy.stages] at hstage ⊢
    exact (tends_persist hO hv).closing.closingDeed (by simp [Deed.closes, hcreate])

/-- **Once its attributes are all computed, an evaluation computes nothing any more.** -/
theorem tends_afterwards (hcomplete : w.Complete e) (ev : EvaluatorId) (attributes : Value) :
    Tends (Closing s e) (do
      let v ← constructWith O e plan attributes
      s.stages.forM (perform O e ev plan attributes v)
      return v) w := by
  have hP := tale_closing s e
  have hdeed : Deed.constructs.closes s := by simp [Deed.closes, hs]
  have hmade : Yields (Closing s e) (fun made _ => made.1.1.isExternal)
      (doing e .constructs (made O e plan attributes)) w :=
    (yields_made hO hs attributes).doing hP (closing_starts hdeed) (closing_ends hdeed)
  simp only [constructWith, bind_assoc, pure_bind]
  refine (hmade.bind hP (R := fun _ _ => True) fun made w₁ h₁ hv => Tends.yields ?_).1
  refine (tends_forM hP _ fun entry _ _ _ => tends_assign hs hv _ entry).bind hP fun _ w₂ h₂ => ?_
  have hcomplete₂ := hcomplete.upheld (h₁.trans h₂)
  refine (tends_forM hP _ fun stage hstage w₃ h₃ => ?_).bind hP fun _ _ _ => tends_pure hP _
  exact tends_perform hO hs (hcomplete₂.upheld h₃) ev attributes hv hstage

end Closing

end Recorded

end TraitFactory
