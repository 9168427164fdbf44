import TraitFactory.Object.Copy
import TraitFactory.Proofs.Idling

/-!
# What is upheld

Evaluations, evaluators, settings and runners are only ever added to while others are at work: an
evaluation keeps the values that it has, an evaluator what it calls, and settings and runners stay
as they are. So it is when values are copied, though a copy may be one of an evaluation itself.
-/

namespace TraitFactory

/-! ## 1. Stores that grow -/

section Growing

variable {α : Type} {R : α → α → Prop} {xs ys zs : Array α}

/-- **A store that has grown**: what was in it stands where it stood, as far as a relation goes. -/
def Grown (R : α → α → Prop) (xs ys : Array α) : Prop :=
  ∀ (i : Nat) x, xs[i]? = some x → ∃ y, ys[i]? = some y ∧ R x y

theorem Grown.refl (hR : ∀ x, R x x) (xs : Array α) : Grown R xs xs := fun _ x h => ⟨x, h, hR x⟩

theorem Grown.trans (hR : ∀ x y z, R x y → R y z → R x z) (h : Grown R xs ys)
    (h' : Grown R ys zs) : Grown R xs zs := by
  intro i x hx
  obtain ⟨y, hy, hxy⟩ := h i x hx
  obtain ⟨z, hz, hyz⟩ := h' i y hy
  exact ⟨z, hz, hR x y z hxy hyz⟩

theorem Grown.imp {S : α → α → Prop} (h : Grown R xs ys) (hRS : ∀ x y, R x y → S x y) :
    Grown S xs ys := by
  intro i x hx
  obtain ⟨y, hy, hxy⟩ := h i x hx
  exact ⟨y, hy, hRS x y hxy⟩

theorem Grown.size_le (h : Grown R xs ys) : xs.size ≤ ys.size := by
  refine Nat.le_of_not_lt fun hlt => ?_
  obtain ⟨y, hy, _⟩ := h ys.size xs[ys.size] (Array.getElem?_eq_getElem hlt)
  rw [Array.getElem?_eq_none (Nat.le_refl _)] at hy
  cases hy

theorem Grown.push (h : Grown R xs ys) (z : α) : Grown R xs (ys.push z) := by
  intro i x hx
  obtain ⟨y, hy, hxy⟩ := h i x hx
  refine ⟨y, ?_, hxy⟩
  rw [Array.getElem?_push_lt (Array.getElem?_eq_some_iff.mp hy).1]
  exact (Array.getElem?_eq_getElem _).symm.trans hy

/-- What has been added since may be changed. -/
theorem Grown.modify_added (h : Grown R xs ys) {n : Nat} (hn : xs.size ≤ n) (f : α → α) :
    Grown R xs (ys.modify n f) := by
  intro i x hx
  obtain ⟨y, hy, hxy⟩ := h i x hx
  have hlt : i < xs.size := (Array.getElem?_eq_some_iff.mp hx).1
  refine ⟨y, ?_, hxy⟩
  rw [Array.getElem?_modify, if_neg (by omega), hy]

/-- So may what stays related to what it was. -/
theorem Grown.modify (hR : ∀ x y z, R x y → R y z → R x z) (h : Grown R xs ys) (n : Nat)
    {f : α → α} (hf : ∀ y, ys[n]? = some y → R y (f y)) : Grown R xs (ys.modify n f) := by
  intro i x hx
  obtain ⟨y, hy, hxy⟩ := h i x hx
  rw [Array.getElem?_modify]
  by_cases hi : n = i
  · subst hi
    exact ⟨f y, by rw [if_pos rfl, hy]; rfl, hR x y _ hxy (hf y hy)⟩
  · exact ⟨y, by rw [if_neg hi, hy], hxy⟩

/-- A store has grown unchanged when what was in it is where it begins now. -/
theorem grown_eq_iff : Grown Eq xs ys ↔ xs.toList <+: ys.toList := by
  rw [List.prefix_iff_getElem?]
  refine ⟨fun h i hi => ?_, fun h i x hx => ?_⟩
  · obtain ⟨y, hy, rfl⟩ := h i xs[i] (Array.getElem?_eq_getElem (by simpa using hi))
    simpa using hy
  · obtain ⟨hi, rfl⟩ := Array.getElem?_eq_some_iff.mp hx
    have hplace := h i (by simpa using hi)
    rw [Array.getElem?_toList, Array.getElem_toList] at hplace
    exact ⟨xs[i], hplace, rfl⟩

instance [DecidableEq α] (xs ys : Array α) : Decidable (Grown Eq xs ys) :=
  decidable_of_iff _ grown_eq_iff.symm

end Growing

/-! ## 2. Worlds -/

/-- **A table that holds all that another one holds.** -/
def Table.Holds {α : Type} (t t' : Table α) : Prop := ∀ name v, t.get? name = some v →
  t'.get? name = some v

/-- **An evaluation upheld**: it has the values that it had, and nothing else of it is changed. -/
structure Evaluation.Upheld (E E' : Evaluation) : Prop where
  rest : E' = { E with values := E'.values }
  values : ∀ t, E.values = .own t → ∃ t', E'.values = .own t' ∧ t.Holds t'

/-- An evaluator upheld: only its ids may have been drawn. -/
def Evaluator.Upheld (E E' : Evaluator) : Prop :=
  E'.settings = E.settings ∧ E'.associate = E.associate

theorem Evaluation.Upheld.refl (E : Evaluation) : E.Upheld E :=
  ⟨rfl, fun t h => ⟨t, h, fun _ _ hv => hv⟩⟩

theorem Evaluation.Upheld.trans (E E₁ E₂ : Evaluation) (h : E.Upheld E₁) (h' : E₁.Upheld E₂) :
    E.Upheld E₂ := by
  refine ⟨?_, fun t ht => ?_⟩
  · rw [h'.rest, h.rest]
  · obtain ⟨t₁, ht₁, hholds⟩ := h.values t ht
    obtain ⟨t₂, ht₂, hholds'⟩ := h'.values t₁ ht₁
    exact ⟨t₂, ht₂, fun name v hv => hholds' name v (hholds name v hv)⟩

/-- **A world in which all that evaluates is upheld.** -/
structure World.Upheld (w w' : World) : Prop where
  evaluations : Grown Evaluation.Upheld w.evaluations w'.evaluations
  evaluators : Grown Evaluator.Upheld w.evaluators w'.evaluators
  settings : Grown Eq w.settings w'.settings
  runners : Grown Eq w.runners w'.runners

namespace World

variable {w w' w₁ w₂ : World}

theorem Upheld.refl (w : World) : w.Upheld w where
  evaluations := .refl Evaluation.Upheld.refl _
  evaluators := .refl (fun _ => ⟨rfl, rfl⟩) _
  settings := .refl (fun _ => rfl) _
  runners := .refl (fun _ => rfl) _

theorem Upheld.trans (h : w.Upheld w₁) (h' : w₁.Upheld w₂) : w.Upheld w₂ where
  evaluations := h.evaluations.trans Evaluation.Upheld.trans h'.evaluations
  evaluators := h.evaluators.trans
    (fun _ _ _ hxy hyz => ⟨hyz.1.trans hxy.1, hyz.2.trans hxy.2⟩) h'.evaluators
  settings := h.settings.trans (fun _ _ _ => Eq.trans) h'.settings
  runners := h.runners.trans (fun _ _ _ => Eq.trans) h'.runners

end World

/-- The frame of what upholds all that evaluates. -/
def Frame.upheld : Frame := ⟨World.Upheld, .refl, .trans⟩

/-- **A world in which nothing that evaluates has changed**, though there may be more of it. -/
structure World.Added (w w' : World) : Prop where
  evaluations : Grown Eq w.evaluations w'.evaluations
  evaluators : Grown Eq w.evaluators w'.evaluators
  settings : Grown Eq w.settings w'.settings
  runners : Grown Eq w.runners w'.runners

instance (w w' : World) : Decidable (w.Added w') :=
  decidable_of_iff (Grown Eq w.evaluations w'.evaluations ∧ Grown Eq w.evaluators w'.evaluators ∧
      Grown Eq w.settings w'.settings ∧ Grown Eq w.runners w'.runners)
    ⟨fun h => ⟨h.1, h.2.1, h.2.2.1, h.2.2.2⟩,
      fun h => ⟨h.evaluations, h.evaluators, h.settings, h.runners⟩⟩

namespace World

variable {w w' w₁ w₂ : World}

theorem Added.refl (w : World) : w.Added w where
  evaluations := .refl (fun _ => rfl) _
  evaluators := .refl (fun _ => rfl) _
  settings := .refl (fun _ => rfl) _
  runners := .refl (fun _ => rfl) _

theorem Added.trans (h : w.Added w₁) (h' : w₁.Added w₂) : w.Added w₂ where
  evaluations := h.evaluations.trans (fun _ _ _ => Eq.trans) h'.evaluations
  evaluators := h.evaluators.trans (fun _ _ _ => Eq.trans) h'.evaluators
  settings := h.settings.trans (fun _ _ _ => Eq.trans) h'.settings
  runners := h.runners.trans (fun _ _ _ => Eq.trans) h'.runners

theorem Idle.added (h : w.Idle w') : w.Added w' where
  evaluations := h.evaluations ▸ .refl (fun _ => rfl) _
  evaluators := h.evaluators ▸ .refl (fun _ => rfl) _
  settings := h.settings ▸ .refl (fun _ => rfl) _
  runners := h.runners ▸ .refl (fun _ => rfl) _

theorem Added.upheld (h : w.Added w') : w.Upheld w' where
  evaluations := h.evaluations.imp fun _ _ heq => heq ▸ .refl _
  evaluators := h.evaluators.imp fun _ _ heq => heq ▸ ⟨rfl, rfl⟩
  settings := h.settings
  runners := h.runners

/-- Where nothing that evaluates has changed, all of it is upheld. -/
theorem Idle.upheld (h : w.Idle w') : w.Upheld w' := h.added.upheld

end World

/-- The frame of what only adds to what evaluates. -/
def Frame.added : Frame := ⟨World.Added, .refl, .trans⟩

instance : Frame.upheld.Lenient := Frame.lenient_of_idle fun _ _ h => h.upheld

instance : Frame.added.Lenient := Frame.lenient_of_idle fun _ _ h => h.added

namespace Action

/-- **An action that upholds all that evaluates.** -/
abbrev Upholds {α : Type} (a : Action α) : Prop := Keeps .upheld a

/-- **An action that only adds to what evaluates.** -/
abbrev Adds {α : Type} (a : Action α) : Prop := Keeps .added a

theorem Idles.adds {α : Type} {a : Action α} (h : Idles a) : Adds a := fun w => (h w).added

theorem Adds.upholds {α : Type} {a : Action α} (h : Adds a) : Upholds a := fun w => (h w).upheld

theorem Idles.upholds {α : Type} {a : Action α} (h : Idles a) : Upholds a := h.adds.upholds

end Action

/-! ## 3. Copies -/

namespace CopyM

variable {α β : Type} {w₀ : World}

/-- **A part of a copy that only adds** to what evaluated before the copy was begun. -/
def Adds (w₀ : World) (m : CopyM α) : Prop :=
  ∀ s : Copying, w₀.Added s.world → w₀.Added (m.run.run s).2.world

theorem adds_pure (x : α) : Adds w₀ (pure x : CopyM α) := fun _ h => h

theorem adds_throw (e : Failure) : Adds w₀ (throw e : CopyM α) := fun _ h => h

theorem adds_fail (message : Option String) : Adds w₀ (CopyM.fail message : CopyM α) :=
  adds_throw _

/-- A part of a copy that gave a result did so by its first part giving one. -/
theorem ok_of_bind {m : CopyM α} {f : α → CopyM β} {s : Copying} {y : β}
    (h : ((m >>= f).run.run s).1 = .ok y) :
    ∃ x s₁, m.run.run s = (.ok x, s₁) ∧ ((f x).run.run s₁).1 = .ok y := by
  rw [ExceptT.run_bind, StateT.run_bind] at h
  rcases hx : m.run.run s with ⟨e | x, s₁⟩ <;> rw [hx] at h
  · cases h
  · exact ⟨x, s₁, rfl, h⟩

theorem adds_bind_of {m : CopyM α} {f : α → CopyM β} (hm : Adds w₀ m)
    (hf : ∀ s x, w₀.Added s.world → (m.run.run s).1 = .ok x →
      w₀.Added ((f x).run.run (m.run.run s).2).2.world) : Adds w₀ (m >>= f) := by
  intro s hs
  have h := hm s hs
  have hf := hf s
  rw [ExceptT.run_bind, StateT.run_bind]
  rcases hx : m.run.run s with ⟨e | x, s'⟩ <;> rw [hx] at h hf
  · exact h
  · exact hf x hs rfl

theorem adds_bind {m : CopyM α} {f : α → CopyM β} (hm : Adds w₀ m)
    (hf : ∀ x, Adds w₀ (f x)) : Adds w₀ (m >>= f) :=
  adds_bind_of hm fun s x hs _ => hf x _ (hm s hs)

theorem adds_get_bind {f : Copying → CopyM β}
    (h : ∀ s, w₀.Added s.world → Adds w₀ (f s)) : Adds w₀ (get >>= f) :=
  fun s hs => h s hs s hs

/-- What is read of the world is known of a world to which has only been added. -/
theorem adds_world_bind {f : World → CopyM β} (h : ∀ w, w₀.Added w → Adds w₀ (f w)) :
    Adds w₀ (world >>= f) := fun s hs => h s.world hs s hs

theorem adds_remember (v copy : Value) : Adds w₀ (remember v copy) := fun _ h => h

/-- What is performed changes the world as it does by itself, whether it fails or not. -/
theorem run_perform (a : Action α) (s : Copying) : (perform a).run.run s =
    (match (a.execute s.world).1 with
      | .ok x => pure x
      | .error e => throw e : CopyM α).run.run { s with world := (a.execute s.world).2 } := rfl

theorem adds_perform_of {a : Action α} (h : ∀ w, w₀.Added w → w₀.Added (a.execute w).2) :
    Adds w₀ (perform a) := by
  intro s hs
  have ha := h s.world hs
  rw [run_perform]
  rcases (a.execute s.world).1 with e | x <;> exact ha

theorem adds_perform {a : Action α} (h : Action.Adds a) : Adds w₀ (perform a) :=
  adds_perform_of fun w hw => hw.trans (h w)

theorem adds_begin (v : Value) {a : Action Value} (h : Action.Adds a) :
    Adds w₀ (begin v a) :=
  adds_bind (adds_perform h) fun copy =>
    adds_bind (adds_remember v copy) fun _ => adds_pure copy

theorem adds_put (copy : Value) (x : Object) : Adds w₀ (put copy x) := by
  unfold put
  split
  · exact adds_perform (Action.keeps_setObject _ _)
  · exact adds_pure _

theorem adds_mapM {f : α → CopyM β} (xs : List α) (h : ∀ x, Adds w₀ (f x)) :
    Adds w₀ (xs.mapM f) := by
  induction xs with
  | nil => exact adds_pure []
  | cons x xs ih =>
    rw [List.mapM_cons]
    exact adds_bind (h x) fun y => adds_bind ih fun ys => adds_pure _

theorem adds_forIn {f : α → PUnit → CopyM (ForInStep PUnit)} (xs : List α)
    (h : ∀ x, Adds w₀ (f x ⟨⟩)) :
    Adds w₀ (forIn xs PUnit.unit f >>= fun _ => pure PUnit.unit) := by
  refine adds_bind ?_ fun _ => adds_pure _
  induction xs with
  | nil => exact adds_pure _
  | cons x xs ih =>
    rw [List.forIn_cons]
    refine adds_bind (h x) fun step => ?_
    cases step with
    | done _ => exact adds_pure _
    | yield _ => exact ih

/-- What is not there is not copied. -/
theorem adds_map_getD {x : Option α} {f : α → CopyM β} {m : CopyM β}
    (hf : ∀ x, Adds w₀ (f x)) (hm : Adds w₀ m) : Adds w₀ ((x.map f).getD m) := by
  cases x with
  | none => exact hm
  | some x => exact hf x

end CopyM

section Copying

open CopyM

variable {w₀ : World} {copy : Value → CopyM Value} (hcopy : ∀ v, CopyM.Adds w₀ (copy v))

include hcopy

theorem adds_copyEntries (es : List (String × Value)) :
    CopyM.Adds w₀ (copyEntries copy es) :=
  adds_mapM es fun _ => adds_bind (hcopy _) fun _ => adds_pure _

theorem adds_copyTable (t : Table Value) : CopyM.Adds w₀ (copyTable copy t) :=
  adds_bind (adds_copyEntries hcopy _) fun _ => adds_pure _

theorem adds_copyOptional (v : Option Value) : CopyM.Adds w₀ (copyOptional copy v) := by
  cases v with
  | none => exact adds_pure _
  | some v => exact adds_bind (hcopy v) fun _ => adds_pure _

theorem adds_copyAttribute (a : AttributeValue) : CopyM.Adds w₀ (copyAttribute copy a) := by
  cases a <;> exact adds_bind (hcopy _) fun _ => adds_pure _

theorem adds_copyPlace (o : ObjectId) : CopyM.Adds w₀ (copyPlace copy o) := by
  refine adds_bind (hcopy _) fun v => ?_
  split <;> exact adds_pure _

theorem adds_copyDeclaration (d : Declaration) :
    CopyM.Adds w₀ (copyDeclaration copy d) := by
  refine adds_get_bind fun s _ => adds_bind (adds_copyPlace hcopy _) fun o => ?_
  split <;> exact adds_pure _

theorem adds_copyCallback (c : Callback) : CopyM.Adds w₀ (copyCallback copy c) := by
  refine adds_get_bind fun s _ => adds_bind (adds_copyPlace hcopy _) fun o => ?_
  split <;> exact adds_pure _

theorem adds_copyLayer (l : Layer) : CopyM.Adds w₀ (copyLayer copy l) :=
  adds_bind (adds_mapM _ (adds_copyDeclaration hcopy)) fun _ =>
    adds_bind (adds_copyOptional hcopy _) fun _ =>
    adds_bind (adds_copyOptional hcopy _) fun _ =>
    adds_bind (adds_mapM _ (adds_copyCallback hcopy)) fun _ => adds_pure _

theorem adds_copyPlan (s : StoredPlan) : CopyM.Adds w₀ (copyPlan copy s) :=
  adds_bind (adds_mapM _ (adds_copyPlace hcopy)) fun _ => adds_get_bind fun _ _ =>
    adds_bind (adds_mapM _ (adds_copyDeclaration hcopy)) fun _ =>
    adds_bind (adds_copyOptional hcopy _) fun _ =>
    adds_bind (adds_copyOptional hcopy _) fun _ =>
    adds_bind (adds_mapM _ (adds_copyCallback hcopy)) fun _ =>
    adds_bind (hcopy _) fun _ => adds_pure _

omit hcopy in
/-- A copy that is made empty and filled afterwards. -/
theorem adds_filled (v : Value) (x : Object) {α : Type} {parts : CopyM α} {f : α → Object}
    (h : CopyM.Adds w₀ parts) : CopyM.Adds w₀ (do
      let v' ← begin v (Action.alloc x)
      put v' (f (← parts))
      return v') :=
  adds_bind (adds_begin v (Action.keeps_alloc x)) fun v' =>
    adds_bind h fun _ => adds_bind (adds_put v' _) fun _ => adds_pure v'

theorem adds_copyObject (v : Value) (x : Object) : CopyM.Adds w₀ (copyObject copy v x) := by
  have hbegin : ∀ x, CopyM.Adds w₀ (begin v (Action.alloc x)) := fun x =>
    adds_begin v (Action.keeps_alloc x)
  cases x with
  | list items => exact adds_filled v _ (adds_mapM items hcopy)
  | dict entries =>
    exact adds_filled v _ (adds_mapM entries fun e =>
      adds_bind (hcopy _) fun _ => adds_bind (hcopy _) fun _ => adds_pure _)
  | record m fields => exact adds_filled v _ (adds_copyTable hcopy fields)
  | tuple items =>
    refine adds_bind (adds_mapM items hcopy) fun items' => adds_get_bind fun s _ => ?_
    split
    · exact adds_pure _
    · split
      · exact adds_pure _
      · exact hbegin _
  | sealed label copyable fields =>
    cases copyable with
    | true => exact adds_filled v _ (adds_copyTable hcopy fields)
    | false => exact adds_fail _
  | attr a => exact adds_bind (adds_copyAttribute hcopy a) fun _ => hbegin _
  | declaration d =>
    refine adds_bind (adds_copyPlace hcopy _) fun o => adds_get_bind fun s _ =>
      adds_begin v (Action.Idles.adds ?_)
    exact Action.keeps_bind (Action.keeps_newDeclaration _ _ _ _) fun _ => Action.keeps_pure _
  | callback c =>
    refine adds_bind (hcopy _) fun fn => adds_begin v (Action.Idles.adds ?_)
    exact Action.keeps_bind (Action.keeps_newCallback _ _ _) fun _ => Action.keeps_pure _
  | set members => exact adds_filled v _ (adds_mapM members hcopy)
  | attributes s =>
    exact adds_filled v _ (adds_mapM _ (adds_copyDeclaration hcopy))
  | layer l => exact adds_bind (adds_copyLayer hcopy l) fun _ => hbegin _
  | snapshot s =>
    exact adds_bind (hbegin _) fun v' => adds_bind (hcopy _) fun _ =>
      adds_bind (hcopy _) fun _ => adds_bind (hcopy _) fun _ =>
      adds_bind (adds_copyTable hcopy _) fun _ =>
      adds_bind (adds_put v' _) fun _ => adds_pure v'
  | iteration i =>
    show CopyM.Adds w₀ (if i.type = "generator" then CopyM.fail none else _)
    split
    · exact adds_fail _
    · exact adds_bind (hcopy _) fun _ => hbegin _

theorem adds_copyExtras (v v' : Value) : CopyM.Adds w₀ (copyExtras copy v v') := by
  have hset : ∀ name x, Action.Idles (modify fun w => w.setExtra v' name x : Action PUnit) :=
    fun _ _ => Action.idles_modify fun _ => ⟨rfl, rfl, rfl, rfl⟩
  refine adds_world_bind fun w _ => ?_
  refine adds_forIn _ fun e => ?_
  exact adds_bind (hcopy _) fun x =>
    adds_bind (adds_perform (hset _ _).adds) fun _ => adds_pure _

theorem adds_copyFunction (v : Value) (f : Function) :
    CopyM.Adds w₀ (copyFunction copy v f) := by
  unfold copyFunction
  split
  · exact adds_pure _
  · exact adds_bind (adds_begin v (Action.idles_newFunction f).adds) fun v' =>
      adds_bind (adds_copyExtras hcopy v v') fun _ => adds_pure v'
  · exact adds_bind (hcopy _) fun _ => adds_begin v (Action.idles_newFunction _).adds

theorem adds_copySlot {α : Type} {copyOwn : α → CopyM α}
    (hown : ∀ x, CopyM.Adds w₀ (copyOwn x)) (s : Slot α) :
    CopyM.Adds w₀ (copySlot copy copyOwn s) := by
  cases s with
  | own x => exact adds_bind (hown x) fun _ => adds_pure _
  | given v => exact adds_bind (hcopy v) fun _ => adds_pure _

theorem adds_copyDefinitionTable (t : Table DefinitionId) :
    CopyM.Adds w₀ (copyDefinitionTable copy t) := by
  refine adds_bind (adds_mapM _ fun e => adds_bind (hcopy _) fun v => ?_)
    fun _ => adds_pure _
  split <;> exact adds_pure _

theorem adds_copyDefinition (v : Value) (d : Definition) :
    CopyM.Adds w₀ (copyDefinition copy v d) := by
  have hidles : ∀ id f, Action.Idles (modify fun w => w.modifyDefinition id f : Action PUnit) :=
    fun _ _ => Action.idles_modify fun _ => ⟨rfl, rfl, rfl, rfl⟩
  have hset : ∀ id f, CopyM.Adds w₀ (perform (modify fun w => w.modifyDefinition id f)) :=
    fun id f => adds_perform (hidles id f).adds
  refine adds_bind (adds_perform (Action.idles_newDefinition d).adds) fun id =>
    adds_bind (adds_remember _ _) fun _ => ?_
  refine adds_bind (adds_copySlot hcopy (fun s =>
      adds_bind (adds_mapM _ (adds_copyDeclaration hcopy)) fun _ => adds_pure _) _)
    fun _ => adds_bind (adds_copySlot hcopy (fun _ => adds_pure _) _) fun _ =>
    adds_bind (adds_copyOptional hcopy _) fun _ =>
    adds_bind (adds_copyOptional hcopy _) fun _ =>
    adds_bind (adds_copySlot hcopy (fun cs =>
      adds_mapM cs (adds_copyCallback hcopy)) _) fun _ =>
    adds_bind (hset _ _) fun _ => ?_
  have hextras : CopyM.Adds w₀ (do
      copyExtras copy v (.definition id)
      return Value.definition id) :=
    adds_bind (adds_copyExtras hcopy v _) fun _ => adds_pure _
  split
  · exact hextras
  · exact adds_bind (hcopy _) fun _ => adds_bind (hcopy _) fun _ =>
      adds_bind (adds_copySlot hcopy (adds_copyDefinitionTable hcopy) _) fun _ =>
      adds_bind (hset _ _) fun _ => hextras

theorem adds_visitTable (t : Slot (Table DefinitionId)) :
    CopyM.Adds w₀ (visitTable copy t) := by
  unfold visitTable
  split
  · refine adds_forIn _ fun d => ?_
    exact adds_bind (hcopy _) fun _ => adds_pure _
  · exact adds_bind (hcopy _) fun _ => adds_pure _

theorem adds_copyRegistry (r : RegistryId) : CopyM.Adds w₀ (copyRegistry copy r) := by
  refine adds_world_bind fun w _ => ?_
  split
  · exact adds_fail _
  · exact adds_bind (adds_visitTable hcopy _) fun _ =>
      adds_bind (adds_visitTable hcopy _) fun _ => adds_fail _

/-! ### Copies of what evaluates

A copy is put behind all that there was, so what is changed of it afterwards is nothing that was
there when the copy was begun. -/

theorem adds_copyEvaluator (v : Value) (e : Evaluator) :
    CopyM.Adds w₀ (copyEvaluator copy v e) := by
  have hpush : ∀ w : World, w.Added { w with evaluators := w.evaluators.push e } := fun w =>
    { World.Added.refl w with evaluators := (World.Added.refl w).evaluators.push e }
  have hnew : Action.Adds (Value.evaluator <$> Action.newEvaluator e) :=
    Action.keeps_map _ fun w => hpush w
  refine adds_world_bind fun w hw => adds_bind (adds_begin v hnew) fun v' =>
    adds_bind (hcopy _) fun _ => adds_bind (hcopy _) fun _ =>
    adds_bind (adds_perform_of fun w' hw' => ?_) fun _ =>
    adds_bind (adds_copyExtras hcopy v v') fun _ => adds_pure v'
  exact { hw' with
    evaluators := hw'.evaluators.modify_added hw.evaluators.size_le _ }

theorem adds_copyRunner (v : Value) (r : Runner) : CopyM.Adds w₀ (copyRunner copy v r) := by
  have hpush : ∀ w : World, w.Added { w with runners := w.runners.push r } := fun w =>
    { World.Added.refl w with runners := (World.Added.refl w).runners.push r }
  refine adds_world_bind fun w hw => adds_bind (adds_begin v
      (Action.keeps_bind (Action.keeps_modify hpush) fun _ => Action.keeps_pure _)) fun v' =>
    adds_bind (hcopy _) fun _ => adds_bind (hcopy _) fun _ => adds_bind (hcopy _) fun _ =>
    adds_bind (adds_perform_of fun w' hw' => ?_) fun _ =>
    adds_bind (adds_copyExtras hcopy v v') fun _ => adds_pure v'
  exact { hw' with runners := hw'.runners.modify_added hw.runners.size_le _ }

theorem adds_copySettings (v : Value) (s : RunnerSettings) :
    CopyM.Adds w₀ (copySettings copy v s) := by
  have hpush : ∀ w : World, w.Added { w with settings := w.settings.push s } := fun w =>
    { World.Added.refl w with settings := (World.Added.refl w).settings.push s }
  have hnew : Action.Adds (Value.settings <$> Action.newSettings s) :=
    Action.keeps_map _ fun w => hpush w
  exact adds_bind (adds_begin v hnew) fun v' =>
    adds_bind (adds_copyExtras hcopy v v') fun _ => adds_pure v'

theorem adds_copyBuilder (v : Value) (b : Builder) :
    CopyM.Adds w₀ (copyBuilder copy v b) := by
  refine adds_world_bind fun w _ =>
    adds_bind (adds_begin v (Action.idles_newBuilder b).adds) fun v' =>
    adds_bind (hcopy _) fun _ => adds_bind (hcopy _) fun _ =>
    adds_bind (adds_perform (Action.Idles.adds ?_)) fun _ =>
    adds_bind (adds_copyExtras hcopy v v') fun _ => adds_pure v'
  exact Action.idles_modify fun _ => ⟨rfl, rfl, rfl, rfl⟩

theorem adds_copyEvaluation (v : Value) (e : EvaluationId) :
    CopyM.Adds w₀ (copyEvaluation copy v e) := by
  refine adds_world_bind fun w hw => ?_
  split
  · exact adds_pure _
  · rename_i E _
    have hpush : ∀ w : World, w.Added { w with evaluations := w.evaluations.push E } := fun w =>
      { World.Added.refl w with evaluations := (World.Added.refl w).evaluations.push E }
    have hsize := hw.evaluations.size_le
    refine adds_world_bind fun w₁ hw₁ => adds_bind (adds_perform
        (Action.keeps_modify hpush)) fun _ => adds_bind (adds_remember _ _) fun _ =>
      adds_bind (adds_remember _ _) fun _ => adds_bind (hcopy _) fun p => ?_
    have hrest : ∀ planId, CopyM.Adds w₀ (do
        let plan := ((← world).plan? planId).getD E.plan
        let associate ← copy E.associate
        let declarations ← copyOptional copy E.declarations
        let values ← copySlot copy (copyTable copy) E.values
        let active ← copySlot copy (fun names => return names) E.active
        let extras ← copyTable copy E.extras
        perform (modify fun w => w.modifyEvaluation ⟨w₁.evaluations.size⟩ fun e =>
          { e with planId, plan, associate, declarations, values, active, extras })
        return (((← get).copies.lookup v).getD v)) := fun planId =>
      adds_world_bind fun _ _ => adds_bind (hcopy _) fun _ =>
        adds_bind (adds_copyOptional hcopy _) fun _ =>
        adds_bind (adds_copySlot hcopy (adds_copyTable hcopy) _) fun _ =>
        adds_bind (adds_copySlot hcopy (fun _ => adds_pure _) _) fun _ =>
        adds_bind (adds_copyTable hcopy _) fun _ =>
        adds_bind (adds_perform_of fun w' hw' => { hw' with
          evaluations := hw'.evaluations.modify_added hw₁.evaluations.size_le _ }) fun _ =>
        adds_get_bind fun _ _ => adds_pure _
    split
    · exact adds_bind (adds_pure _) hrest
    · exact adds_bind (adds_pure _) hrest

theorem adds_copyAnew (v : Value) : CopyM.Adds w₀ (copyAnew copy v) := by
  refine adds_world_bind fun w _ => ?_
  have hsame : CopyM.Adds w₀ (pure v : CopyM Value) := adds_pure v
  split
  · exact adds_map_getD (adds_copyObject hcopy _) hsame
  · exact adds_map_getD (adds_copyFunction hcopy _) hsame
  · exact hsame
  · split
    · exact hsame
    · exact adds_bind (hcopy _) fun _ => adds_begin _ (Action.keeps_newMethod _ _)
  · exact adds_filled _ _ (adds_mapM _ fun e =>
      adds_bind (hcopy _) fun _ => adds_pure _)
  · split
    · exact adds_fail _
    · exact adds_bind (hcopy _) fun _ => adds_begin _ (Action.Idles.adds
        (Action.keeps_bind Action.keeps_newSerial fun _ => Action.keeps_pure _))
  · split
    · exact adds_bind (adds_copyPlan hcopy _) fun stored =>
        adds_begin _ (Action.keeps_map _ (Action.idles_newPlan stored).adds)
    · exact adds_pure _
  · exact adds_map_getD (adds_copyDefinition hcopy _) hsame
  · exact adds_map_getD (adds_copyBuilder hcopy _) hsame
  · exact adds_copyRegistry hcopy _
  · exact adds_copyRegistry hcopy _
  · exact adds_map_getD (adds_copyRunner hcopy _) hsame
  · exact adds_map_getD (adds_copyEvaluator hcopy _) hsame
  · exact adds_map_getD (adds_copySettings hcopy _) hsame
  · exact adds_copyEvaluation hcopy _ _
  · exact adds_copyEvaluation hcopy _ _
  · split
    · exact adds_fail _
    · exact adds_pure _
  · exact hsame

omit hcopy in
theorem adds_copyValue (depth : Nat) (v : Value) : CopyM.Adds w₀ (copyValue depth v) := by
  induction depth generalizing v with
  | zero => exact adds_throw _
  | succ depth ih =>
    refine adds_get_bind fun s _ => ?_
    split
    · exact adds_pure _
    · exact adds_copyAnew ih v

end Copying

/-- **A copy only adds to what evaluates**, whatever it is a copy of. -/
theorem Action.adds_copy (v : Value) : Adds (Action.copy v) := by
  intro w
  have hcopied : CopyM.Adds w (copyValue (copyDepth w) v) := adds_copyValue _ v
  have h := hcopied ⟨w, []⟩ (.refl w)
  show w.Added ((Action.copying fun depth => copyValue depth v).execute w).2
  rw [Action.copying, execute_bind_ok (execute_get w)]
  rcases hrun : (copyValue (copyDepth w) v).run.run ⟨w, []⟩ with ⟨e | v', s⟩ <;> rw [hrun] at h <;>
    exact h

/-- **A copy upholds all that evaluates.** -/
theorem Action.upholds_copy (v : Value) : Upholds (Action.copy v) := (adds_copy v).upholds

/-- **The copy of a dictionary is an object**, too. -/
theorem Action.object_of_copy {w w' : World} {o : ObjectId} {entries : List (Value × Value)}
    {v : Value} (ho : w.heap.get? o = some (.dict entries))
    (h : (Action.copy (.object o)).execute w = (.ok v, w')) : ∃ o', v = .object o' := by
  have hcopied : ∀ depth, ((copyValue depth (.object o)).run.run ⟨w, []⟩).1 = .ok v →
      ∃ o', v = .object o' := by
    rintro (_ | depth) hv
    · cases hv
    · have hobject : copyAnew (copyValue depth) (.object o) = CopyM.world >>= fun w =>
          ((w.heap.get? o).map (copyObject (copyValue depth) (.object o))).getD
            (return .object o) := rfl
      have hanew : ((copyObject (copyValue depth) (.object o) (.dict entries)).run.run
          ⟨w, []⟩).1 = .ok v := by
        rw [← hv]
        show _ = ((copyAnew (copyValue depth) (.object o)).run.run ⟨w, []⟩).1
        rw [hobject]
        show _ = ((((w.heap.get? o).map (copyObject (copyValue depth) (.object o))).getD
          (return .object o)).run.run ⟨w, []⟩).1
        rw [ho]
        rfl
      obtain ⟨v', s, hbegin, hput⟩ := CopyM.ok_of_bind hanew
      obtain ⟨_, s₁, _, hput⟩ := CopyM.ok_of_bind hput
      obtain ⟨_, s₂, _, hlast⟩ := CopyM.ok_of_bind hput
      cases hlast
      cases hbegin
      exact ⟨_, rfl⟩
  rw [Action.copy, Action.copying, execute_bind_ok (execute_get w)] at h
  have hcopied := hcopied (copyDepth w)
  rcases hrun : (copyValue (copyDepth w) (.object o)).run.run ⟨w, []⟩ with ⟨e | v', s⟩ <;>
    rw [hrun] at h hcopied
  · cases h
  · cases h
    exact hcopied rfl

end TraitFactory
