import TraitFactory.Association
import TraitFactory.Proofs.Execution

/-!
# Actions apart from the registries

Reading names, walks through lists and the making of attribute values have to do with objects
only. Such an action is *apart*: it leaves registries, definitions, plans, builders and runners as
they are, and it does the same whatever the registries are and whatever has been logged.
-/

namespace TraitFactory

/-- **A world in which nothing has been declared, compiled or registered** since another: all but
its objects, its session and its records is the same. -/
structure World.Undisturbed (w w' : World) : Prop where
  registries : w'.registries = w.registries
  definitions : w'.definitions = w.definitions
  plans : w'.plans = w.plans
  builders : w'.builders = w.builders
  runners : w'.runners = w.runners

namespace World

variable {w w' : World}

theorem Undisturbed.registryAt? (h : w.Undisturbed w') (r : RegistryId) :
    w'.registryAt? r = w.registryAt? r := by
  rw [World.registryAt?, World.registryAt?, h.registries]

theorem Undisturbed.stored? (h : w.Undisturbed w') (p : PlanId) : w'.stored? p = w.stored? p := by
  rw [World.stored?, World.stored?, h.plans]

end World

/-- The frame of what disturbs nothing. -/
def Frame.undisturbed : Frame where
  rel := World.Undisturbed
  refl _ := ⟨rfl, rfl, rfl, rfl, rfl⟩
  trans h h' := ⟨h'.registries.trans h.registries, h'.definitions.trans h.definitions,
    h'.plans.trans h.plans, h'.builders.trans h.builders, h'.runners.trans h.runners⟩

instance : Frame.undisturbed.Lenient where
  heap _ _ _ := ⟨rfl, rfl, rfl, rfl, rfl⟩
  made _ _ := ⟨rfl, rfl, rfl, rfl, rfl⟩
  log _ _ := ⟨rfl, rfl, rfl, rfl, rfl⟩

/-- **The margin of a world**: its registries and its log, on which values do not depend. -/
structure Margin where
  registries : Array Registry
  log : Array LogEntry

/-- A world with another margin. -/
def World.withMargin (w : World) (m : Margin) : World :=
  { w with registries := m.registries, log := m.log }

namespace World

variable (w : World) (m : Margin)

/-- The text of a value shows nothing of what stands at the margin. -/
theorem unfold_withMargin (inside : Bool) (depth : Nat) :
    (w.withMargin m).unfold inside depth = w.unfold inside depth := by
  induction depth with
  | zero => rfl
  | succ depth ih =>
    funext path
    simp only [unfold, ih]
    rfl

theorem same_withMargin (depth : Nat) :
    (w.withMargin m).same depth = w.same depth := by
  induction depth with
  | zero =>
    funext a b
    simp only [same]
  | succ depth ih =>
    funext a b
    simp only [same, ih]
    rfl

/-- Nor does it matter for the equality of values. -/
theorem sameKey_withMargin : (w.withMargin m).sameKey = w.sameKey := by
  have hequal : (w.withMargin m).equal = w.equal := same_withMargin w m _
  funext a b
  unfold sameKey
  rw [hequal]

theorem written_withMargin (v : Value) (text : View → String) :
    (w.withMargin m).written v text = w.written v text := by
  have hview : (w.withMargin m).fullView = w.fullView := by
    unfold fullView
    rw [unfold_withMargin]
    rfl
  unfold written
  rw [hview]

end World

namespace Action

variable {α β : Type} {Q : α → Prop} {R : β → Prop}

/-! ## 1. Putting such actions together -/

/-- **An action apart from the registries** whose results have a property. -/
def ApartWith (Q : α → Prop) (a : Action α) : Prop :=
  ∀ w, w.Undisturbed (a.execute w).2 ∧ (∀ x, (a.execute w).1 = .ok x → Q x) ∧
    ∀ m, a.execute (w.withMargin m) =
      ((a.execute w).1, (a.execute w).2.withMargin m)

/-- **An action apart from the registries.** -/
abbrev Apart (a : Action α) : Prop := ApartWith (fun _ => True) a

theorem ApartWith.keeps {a : Action α} (h : ApartWith Q a) : Keeps .undisturbed a :=
  fun w => (h w).1

theorem ApartWith.withMargin {a : Action α} (h : ApartWith Q a) (w : World)
    (m : Margin) : a.execute (w.withMargin m) =
      ((a.execute w).1, (a.execute w).2.withMargin m) := (h w).2.2 m

theorem apartWith_pure {x : α} (h : Q x) : ApartWith Q (pure x : Action α) := by
  intro w
  refine ⟨Frame.undisturbed.refl w, ?_, fun _ => rfl⟩
  rintro _ ⟨⟩
  exact h

theorem apartWith_throw (e : Failure) : ApartWith Q (throw e : Action α) := by
  intro w
  refine ⟨Frame.undisturbed.refl w, ?_, fun _ => rfl⟩
  rintro _ ⟨⟩

theorem apartWith_fail (c : Cause) : ApartWith Q (fail c : Action α) := apartWith_throw _

theorem apartWith_bind {a : Action β} {f : β → Action α} (ha : ApartWith R a)
    (hf : ∀ x, R x → ApartWith Q (f x)) : ApartWith Q (a >>= f) := by
  intro w
  obtain ⟨hrel, hresult, hsame⟩ := ha w
  rcases hx : a.execute w with ⟨e | x, w'⟩ <;> rw [hx] at hrel hresult hsame
  · rw [execute_bind_error hx]
    refine ⟨hrel, ?_, fun m => execute_bind_error (hsame m)⟩
    rintro _ ⟨⟩
  · obtain ⟨hrel', hresult', hsame'⟩ := hf x (hresult x rfl) w'
    rw [execute_bind_ok hx]
    refine ⟨Frame.undisturbed.trans hrel hrel', hresult', fun m => ?_⟩
    rw [execute_bind_ok (hsame m)]
    exact hsame' m

theorem apart_bind {a : Action β} {f : β → Action α} (ha : Apart a)
    (hf : ∀ x, ApartWith Q (f x)) : ApartWith Q (a >>= f) := apartWith_bind ha fun x _ => hf x

/-- Reading the world is apart if what is read is not at the margin. -/
theorem apartWith_get {f : World → Action α}
    (hsame : ∀ w m, f (w.withMargin m) = f w) (hf : ∀ w, ApartWith Q (f w)) :
    ApartWith Q (get >>= f) := by
  intro w
  rw [execute_bind_ok (execute_get w)]
  refine ⟨(hf w w).1, (hf w w).2.1, fun m => ?_⟩
  rw [execute_bind_ok (execute_get _), hsame]
  exact (hf w w).2.2 m

theorem apart_modify {f : World → World} (hf : ∀ w, World.Undisturbed w (f w))
    (hsame : ∀ w m, f (w.withMargin m) = (f w).withMargin m) :
    Apart (modify f : Action PUnit) := by
  intro w
  refine ⟨hf w, fun _ _ => trivial, fun m => ?_⟩
  rw [execute_modify, execute_modify, hsame]

theorem apart_mapM {f : α → Action β} {xs : List α} (h : ∀ x ∈ xs, Apart (f x)) :
    Apart (xs.mapM f) := by
  induction xs with
  | nil => exact apartWith_pure trivial
  | cons x xs ih =>
    rw [List.mapM_cons]
    have ih := ih fun y hy => h y (by simp [hy])
    exact apart_bind (h x (by simp)) fun y => apart_bind ih fun ys => apartWith_pure trivial

/-! ## 2. Objects and their parts -/

theorem apart_setObject (o : ObjectId) (x : Object) :
    Apart (modify fun w => w.setObject o x : Action PUnit) :=
  apart_modify (fun _ => ⟨rfl, rfl, rfl, rfl, rfl⟩) fun _ _ => rfl

theorem apart_alloc (x : Object) : Apart (alloc x) :=
  fun _ => ⟨⟨rfl, rfl, rfl, rfl, rfl⟩, fun _ _ => trivial, fun _ => rfl⟩

theorem apart_place (x : Object) : Apart (place x) :=
  fun _ => ⟨⟨rfl, rfl, rfl, rfl, rfl⟩, fun _ _ => trivial, fun _ => rfl⟩

/-- A part that is made when it is first asked for is apart if its making is. -/
theorem apart_once (v : Value) (name : String) {make : Action Value} (h : Apart make) :
    Apart (once v name make) := by
  unfold once
  refine apartWith_get (fun _ _ => rfl) fun w => ?_
  cases w.madePart? v name with
  | some x => exact apartWith_pure trivial
  | none =>
    refine apart_bind h fun x => apart_bind ?_ fun _ => apartWith_pure trivial
    exact apart_modify (fun _ => ⟨rfl, rfl, rfl, rfl, rfl⟩) fun _ _ => rfl

theorem apart_lasting (owner : Value) (name : String) (vs : List Value) :
    Apart (Parts.lasting owner name vs).2 := apart_once _ _ (apart_alloc _)

theorem apart_given (name : String) (v : Value) : Apart (Parts.given name v).2 :=
  apartWith_pure trivial

/-! ## 3. Names -/

theorem apart_written (v : Value) (text : View → String) : Apart (written v text) := by
  refine apartWith_get (fun w m => by rw [World.written_withMargin]) fun w => ?_
  cases w.written v text with
  | ok s => exact apartWith_pure trivial
  | error c => exact apartWith_fail c

theorem apart_nameOr (cause : String → Cause) (ref : Value) : Apart (nameOr cause ref) := by
  unfold nameOr
  cases ref.name? with
  | some name => exact apartWith_pure trivial
  | none => exact apart_bind (apart_written _ _) fun s => apartWith_fail _

theorem apart_traitName (ref : Value) : Apart (traitName ref) := apart_nameOr _ ref

theorem apart_factoryName (ref : Value) : Apart (factoryName ref) := apart_nameOr _ ref

theorem apart_attributeName (ref : Value) : Apart (attributeName ref) := apart_nameOr _ ref

/-! ## 4. Walks -/

theorem apart_getStored (p : PlanId) : Apart (getStored p) := by
  refine apartWith_get (fun _ _ => rfl) fun w => ?_
  cases w.stored? p with
  | some s => exact apartWith_pure trivial
  | none => exact apartWith_fail _

theorem apart_snapshotTable (s : Snapshot) : Apart (snapshotTable s) := by
  refine apartWith_get (fun _ _ => rfl) fun w => ?_
  cases w.entries? s.table with
  | some entries => exact apartWith_pure trivial
  | none => exact apartWith_fail _

theorem apart_noteRead (s : Snapshot) (keys : List Value) : Apart (noteRead s keys) := by
  unfold noteRead
  refine apartWith_get (fun _ _ => rfl) fun w => ?_
  split
  · refine apart_modify (fun _ => ⟨rfl, rfl, rfl, rfl, rfl⟩) fun w m => ?_
    rw [World.sameKey_withMargin]
    rfl
  · exact apartWith_fail _

theorem apart_aspectElement (aspect : TableAspect) (entry : Value × Value) :
    Apart (aspectElement aspect entry) := by
  cases aspect with
  | keys => exact apartWith_pure trivial
  | values => exact apartWith_pure trivial
  | items => exact apart_alloc _

/-- The reads of a walk are apart. -/
def Walk.Apart (reads : Walk) : Prop := ∀ read ∈ reads, Action.Apart read

theorem walkOf_apart (vs : List Value) : Walk.Apart (walkOf vs) := by
  intro read hread
  obtain ⟨v, _, rfl⟩ := List.mem_map.mp hread
  exact apartWith_pure trivial

theorem map_apart {γ : Type} (xs : List γ) {f : γ → Action Value} (h : ∀ x ∈ xs, Apart (f x)) :
    Walk.Apart (xs.map f) := by
  intro read hread
  obtain ⟨x, hx, rfl⟩ := List.mem_map.mp hread
  exact h x hx

theorem ofPlan_apart (p : PlanId) (s : StoredPlan) :
    ∀ part ∈ Parts.ofPlan p s, Apart part.2 := by
  simp [Parts.ofPlan, apart_given, apart_lasting]

theorem ofObject_apart {owner : Value} {x : Object} {parts : Parts}
    (h : Parts.ofObject? owner x = some parts) : ∀ part ∈ parts, Apart part.2 := by
  cases x <;> simp only [Parts.ofObject?, Option.some.injEq, reduceCtorEq] at h <;> subst h
  case attr a =>
    cases a <;> simp [Parts.ofAttribute, apart_given, apart_lasting]
  case declaration d => simp [Parts.ofDeclaration, apart_given]
  case callback c => simp [Parts.ofCallback, apart_given]
  case layer l => simp [Parts.ofLayer, apart_given, apart_lasting]

/-- A pair of a name and the part under it. -/
theorem apart_pair {part : String × Action Value} (h : Apart part.2) :
    Apart (do alloc (.tuple [.text part.1, ← part.2])) :=
  apart_bind h fun _ => apart_alloc _

theorem apart_walkObject (owner : Value) (x : Object) :
    ApartWith Walk.Apart (walkObject owner x) := by
  unfold walkObject
  split
  case h_5 s =>
    exact apart_bind (apart_snapshotTable s) fun entries => apartWith_pure (walkOf_apart _)
  case h_7 =>
    split
    · exact apartWith_pure
        (map_apart _ fun part hpart => apart_pair (ofObject_apart ‹_› part hpart))
    · exact apartWith_fail _
  all_goals exact apartWith_pure (walkOf_apart _)

theorem apart_snapshot? (v : Value) : Apart (snapshot? v) := by
  refine apartWith_get (fun _ _ => rfl) fun w => ?_
  split <;> exact apartWith_pure trivial

/-- The walk through what a view of a table shows. -/
theorem apart_walkTable (aspect : TableAspect) (table : Value) :
    ApartWith Walk.Apart (walkTable aspect table) := by
  refine apart_bind (apart_snapshot? table) fun found => apartWith_get (fun _ _ => rfl) fun w => ?_
  split
  · exact apart_bind (apart_snapshotTable _) fun entries =>
      apartWith_pure (map_apart _ fun e _ => apart_aspectElement _ e)
  · exact apart_bind (apart_snapshotTable _) fun entries =>
      apartWith_pure (map_apart _ fun e _ =>
        apart_bind (apart_noteRead _ _) fun _ => apart_aspectElement _ e)
  · exact apartWith_pure (map_apart _ fun e _ => apart_aspectElement _ e)
  · exact apartWith_fail _

theorem apart_pairs {parts : Parts} (h : ∀ part ∈ parts, Apart part.2) : Apart (pairs parts) :=
  apart_mapM fun part hpart => apart_pair (h part hpart)

theorem apart_walkPlain (v : Value) : ApartWith Walk.Apart (walkPlain v) := by
  unfold walkPlain
  split
  · exact apartWith_pure (walkOf_apart _)
  · exact apartWith_pure (walkOf_apart _)
  · exact apartWith_fail _
  · exact apart_bind (apart_getStored _) fun s =>
      apart_bind (apart_pairs (ofPlan_apart _ s)) fun vs => apartWith_pure (walkOf_apart vs)
  · refine apartWith_get (fun _ _ => rfl) fun w => ?_
    split
    · exact apart_walkObject _ _
    · exact apartWith_fail _
  · exact apart_walkTable _ _
  · exact apart_walkTable _ _
  · exact apartWith_pure (walkOf_apart _)
  · exact apartWith_fail _

/-- What is left of an iteration is read like the whole, and noted. -/
theorem walkRest_apart (o : ObjectId) (i : Iteration) {all : Walk} (h : Walk.Apart all) :
    Walk.Apart (walkRest o i all) := by
  refine map_apart _ fun read hread => ?_
  have hmem := List.fst_mem_of_mem_zipIdx hread
  refine apart_bind (apart_setObject _ _) fun _ => h read.1 ?_
  split at hmem
  · exact List.mem_of_mem_drop hmem
  · split at hmem
    · exact List.mem_of_mem_take (List.mem_reverse.mp hmem)
    · simp at hmem

theorem apart_walk (v : Value) : ApartWith Walk.Apart (walk v) := by
  unfold walk
  refine apartWith_get (fun _ _ => rfl) fun w => ?_
  split
  · rename_i o i _ _
    split
    · exact apartWith_pure (walkOf_apart [])
    · refine apartWith_bind (apart_walkPlain _) fun all hall =>
        apartWith_get (fun _ _ => rfl) fun w => ?_
      have hrest : ApartWith Walk.Apart (do
          if (walkRest o i all).isEmpty then
            modify fun w => w.setObject o (.iteration { i with finished := true })
          return walkRest o i all) := by
        split
        · exact apart_bind (apart_setObject _ _) fun _ => apartWith_pure (walkRest_apart o i hall)
        · exact apartWith_pure (walkRest_apart o i hall)
      split
      · split
        · exact apart_bind (apartWith_fail _) fun _ => hrest
        · exact hrest
      · exact hrest
  · exact apart_walkPlain _

theorem apart_elements (v : Value) : Apart (elements v) :=
  apartWith_bind (apart_walk v) fun _ hreads => apart_mapM hreads

theorem apart_elementsOf (v : Option Value) : Apart (elementsOf v) := by
  cases v with
  | none => exact apartWith_pure trivial
  | some v => exact apart_elements v

end Action

end TraitFactory
