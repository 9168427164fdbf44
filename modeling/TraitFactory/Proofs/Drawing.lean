import TraitFactory.Proofs.Nesting

/-!
# Drawing synthetic ids

An evaluator counts the synthetic ids that it hands out. Whatever else is done while evaluations
run leaves that count alone, so what happens in a world is a sequence of draws with other things
before, between and after them, and the ids that are drawn count on from the first one.
-/

namespace TraitFactory

open Action Recorded

/-! ## 1. What remains -/

/-- **A world in which what evaluates remains** what it was: an evaluation that stands still does,
with all that it has computed, and all else that evaluates is upheld. -/
structure World.Remains (w w' : World) : Prop where
  evaluators : Grown Evaluator.Upheld w.evaluators w'.evaluators
  settings : Grown Eq w.settings w'.settings
  runners : Grown Eq w.runners w'.runners
  size : w.evaluations.size ≤ w'.evaluations.size
  stands : ∀ e E t active, w.Stands e E t active → ∃ t' active', w'.Stands e E t' active' ∧
    ∀ name, (t.get? name).isSome → (t'.get? name).isSome

/-- **A world in which no id has been drawn** since another. -/
structure World.Unspent (w w' : World) : Prop extends w.Remains w' where
  unspent : Grown Eq w.evaluators w'.evaluators

namespace World

variable {w w' w₁ w₂ : World} {c : Wiring} {s : Strategy} {e : EvaluationId} {name : String}

theorem Remains.trans (h : w.Remains w₁) (h' : w₁.Remains w₂) : w.Remains w₂ where
  evaluators := h.evaluators.trans
    (fun _ _ _ hxy hyz => ⟨hyz.1.trans hxy.1, hyz.2.trans hxy.2⟩) h'.evaluators
  settings := h.settings.trans (fun _ _ _ => Eq.trans) h'.settings
  runners := h.runners.trans (fun _ _ _ => Eq.trans) h'.runners
  size := Nat.le_trans h.size h'.size
  stands e E t active hE := by
    obtain ⟨t₁, active₁, hE₁, hkept₁⟩ := h.stands e E t active hE
    obtain ⟨t₂, active₂, hE₂, hkept₂⟩ := h'.stands e E t₁ active₁ hE₁
    exact ⟨t₂, active₂, hE₂, fun name hname => hkept₂ name (hkept₁ name hname)⟩

theorem Upheld.remains (h : w.Upheld w') : w.Remains w' where
  evaluators := h.evaluators
  settings := h.settings
  runners := h.runners
  size := h.evaluations.size_le
  stands e E t active hE := by
    obtain ⟨t', hE', hholds⟩ := h.stands hE
    refine ⟨t', active, hE', fun name hname => ?_⟩
    obtain ⟨v, hv⟩ := Option.isSome_iff_exists.mp hname
    rw [hholds name v hv]
    rfl

theorem Remains.refl (w : World) : w.Remains w := (Upheld.refl w).remains

theorem Added.unspent (h : w.Added w') : w.Unspent w' := ⟨h.upheld.remains, h.evaluators⟩

theorem Unspent.refl (w : World) : w.Unspent w := (Added.refl w).unspent

theorem Unspent.trans (h : w.Unspent w₁) (h' : w₁.Unspent w₂) : w.Unspent w₂ :=
  ⟨h.toRemains.trans h'.toRemains, h.unspent.trans (fun _ _ _ => Eq.trans) h'.unspent⟩

theorem Settled.remains (h : w.Settled e name) (hw : w.Remains w') : w'.Settled e name := by
  obtain ⟨E, t, active, hE, hname⟩ := h
  obtain ⟨t', active', hE', hkept⟩ := hw.stands e E t active hE
  exact ⟨E, t', active', hE', hkept name hname⟩

theorem Complete.remains (h : w.Complete e) (hw : w.Remains w') : w'.Complete e := by
  obtain ⟨E, t, active, hE, hdeclarations, hall⟩ := h
  obtain ⟨t', active', hE', hkept⟩ := hw.stands e E t active hE
  exact ⟨E, t', active', hE', hdeclarations, fun name hname => hkept name (hall name hname)⟩

theorem Wired.remains (h : w.Wired c) (hw : w.Remains w') : w'.Wired c :=
  h.grown hw.evaluators hw.settings hw.runners

theorem Runs.remains (h : w.Runs c s e) (hw : w.Remains w') : w'.Runs c s e := by
  obtain ⟨E, t, active, hE, hobeys⟩ := h.evaluation
  obtain ⟨t', active', hE', _⟩ := hw.stands e E t active hE
  exact ⟨h.wired.remains hw, E, t', active', hE', hobeys⟩

/-! ### The steps of a read -/

/-- An evaluation may be given more values and other active attributes. -/
theorem unspent_modifyEvaluation {f : Evaluation → Evaluation}
    (hf : ∀ (E : Evaluation) (t : Table Value) active, ∃ (t' : Table Value) (active' : List String),
      f { E with values := .own t, active := .own active } =
        { E with values := .own t', active := .own active' } ∧
      ∀ name, (t.get? name).isSome → (t'.get? name).isSome) :
    w.Unspent (w.modifyEvaluation e f) where
  evaluators := (Upheld.refl w).evaluators
  settings := (Upheld.refl w).settings
  runners := (Upheld.refl w).runners
  size := Nat.le_of_eq Array.size_modify.symm
  stands e' E t active hE := by
    by_cases he : e.index = e'.index
    · obtain ⟨t', active', heq, hkept⟩ := hf E t active
      refine ⟨t', active', ?_, hkept⟩
      rw [Stands, ← heq]
      show (w.evaluations.modify e.index f)[e'.index]? = _
      rw [Array.getElem?_modify, if_pos he]
      exact congrArg (Option.map f) hE
    · refine ⟨t, active, ?_, fun _ h => h⟩
      show (w.evaluations.modify e.index f)[e'.index]? = _
      rw [Array.getElem?_modify, if_neg he]
      exact hE
  unspent := (Added.refl w).evaluators

theorem unspent_activated (w : World) (e : EvaluationId) (name : String) :
    w.Unspent (activated w e name) :=
  unspent_modifyEvaluation fun _ t _ => ⟨t, _, rfl, fun _ h => h⟩

theorem unspent_deactivated (w : World) (e : EvaluationId) : w.Unspent (deactivated w e) :=
  unspent_modifyEvaluation fun _ t _ => ⟨t, _, rfl, fun _ h => h⟩

theorem unspent_withKept (w : World) (e : EvaluationId) (name : String) (v : Value) :
    w.Unspent (withKept w e name v) := by
  refine unspent_modifyEvaluation fun _ t active => ⟨t.insert name v, active, rfl, fun n hn => ?_⟩
  by_cases hname : n = name
  · rw [hname, Table.get?_insert_self]
    rfl
  · rwa [Table.get?_insert_of_ne _ _ hname]

end World

/-- The frame of what draws no id. -/
def Frame.unspent : Frame := ⟨World.Unspent, .refl, .trans⟩

instance : Frame.unspent.Lenient := Frame.lenient_of_idle fun _ _ h => h.added.unspent

namespace Action

/-- **An action that draws no id.** -/
abbrev Saves {α : Type} (a : Action α) : Prop := Keeps .unspent a

theorem Adds.saves {α : Type} {a : Action α} (h : Adds a) : Saves a := fun w => (h w).unspent

theorem Idles.saves {α : Type} {a : Action α} (h : Idles a) : Saves a := h.adds.saves

theorem adds_newEvaluation (E : Evaluation) : Adds (newEvaluation E) := fun w =>
  { World.Added.refl w with evaluations := (World.Added.refl w).evaluations.push E }

end Action

/-! ## 2. Draws -/

/-- **A synthetic id that was drawn** for the instance that an evaluation made. -/
structure Draw where
  evaluation : EvaluationId
  made : Value
  id : Value

/-- The next id of an evaluator. -/
def World.nextId? (w : World) (ev : EvaluatorId) : Option Value :=
  (w.evaluator? ev).map (·.nextId)

/-- The world after an id has been drawn for an instance and set on it. -/
def World.drawn (w : World) (ev : EvaluatorId) (v : Value) : World :=
  ((setAttr v "id" =<< drawId ev).execute w).2

/-- **The ids that are drawn from an evaluator** on the way from one world to another: each is the
next one when it is drawn, and nothing else is drawn. -/
inductive World.Draws (ev : EvaluatorId) : World → List Draw → World → Prop
  | nil {w w' : World} (h : w.Unspent w') : Draws ev w [] w'
  | cons {w w₁ w' : World} {d : Draw} {ds : List Draw} (h : w.Unspent w₁)
      (hid : w₁.nextId? ev = some d.id) (hmade : d.made.isExternal)
      (hrest : Draws ev (w₁.drawn ev d.made) ds w') : Draws ev w (d :: ds) w'

namespace World

variable {ev : EvaluatorId} {w w' w₁ : World} {ds ds' : List Draw} {v : Value}

theorem remains_drawn (w : World) (ev : EvaluatorId) (hv : v.isExternal) :
    w.Remains (w.drawn ev v) := by
  have hdraw : Upholds (setAttr v "id" =<< drawId ev) :=
    keeps_bind (upholds_drawId ev) fun _ => (idles_setAttr hv _ _).upholds
  exact (hdraw w).remains

theorem Draws.remains (h : w.Draws ev ds w') : w.Remains w' := by
  induction h with
  | nil h => exact h.toRemains
  | cons h _ hmade _ ih => exact (h.toRemains.trans (remains_drawn _ ev hmade)).trans ih

theorem Unspent.draws (h : w.Unspent w₁) (hds : w₁.Draws ev ds w') : w.Draws ev ds w' := by
  cases hds with
  | nil h' => exact .nil (h.trans h')
  | cons h' hid hmade hrest => exact .cons (h.trans h') hid hmade hrest

theorem Draws.append (h : w.Draws ev ds w₁) (h' : w₁.Draws ev ds' w') :
    w.Draws ev (ds ++ ds') w' := by
  induction h with
  | nil h => exact h.draws h'
  | cons h hid hmade _ ih => exact .cons h hid hmade (ih h')

/-- Where nothing that counts has changed, the next id is the same. -/
theorem nextId?_unspent {id : Value} (h : w.nextId? ev = some id) (hw : w.Unspent w') :
    w'.nextId? ev = some id := by
  obtain ⟨E, hE, rfl⟩ := Option.map_eq_some_iff.mp h
  obtain ⟨_, hE', rfl⟩ := hw.unspent ev.index E hE
  exact congrArg (Option.map (·.nextId)) hE'

/-- After a number has been drawn, the next id is the next number. -/
theorem nextId?_drawn {n : Int} (h : w.nextId? ev = some (.int n)) (hv : v.isExternal) :
    (w.drawn ev v).nextId? ev = some (.int (n + 1)) := by
  obtain ⟨E, hE, hn⟩ := Option.map_eq_some_iff.mp h
  let w₁ := w.modifyEvaluator ev fun E => { E with nextId := .int (n + 1) }
  have hdraw : (drawId ev).execute w = (.ok (.int n), w₁) := by
    rw [drawId, execute_bind_ok (execute_getEvaluator hE), hn]
    rfl
  have hnext : w₁.nextId? ev = some (.int (n + 1)) := by
    show Option.map _ (w.evaluators.modify ev.index _)[ev.index]? = _
    rw [Array.getElem?_modify, if_pos rfl]
    show Option.map _ (Option.map _ (w.evaluator? ev)) = _
    rw [hE]
    rfl
  have hset : w.drawn ev v = ((setAttr v "id" (.int n)).execute w₁).2 :=
    congrArg Prod.snd (execute_bind_ok hdraw)
  rw [hset]
  exact nextId?_unspent hnext ((idles_setAttr hv "id" (.int n)).saves w₁)

/-- **The ids that are drawn count on from the first one.** -/
theorem Draws.ids {n : Int} (h : w.Draws ev ds w') (hn : w.nextId? ev = some (.int n)) :
    ds.map (·.id) = (List.range ds.length).map (fun i : Nat => .int (n + i)) ∧
      w'.nextId? ev = some (.int (n + ds.length)) := by
  induction h generalizing n with
  | nil h => exact ⟨rfl, by simpa using nextId?_unspent hn h⟩
  | @cons w w₁ w' d ds h hid hmade _ ih =>
    have hnext := nextId?_unspent hn h
    have hd : d.id = .int n := Option.some.inj (hid.symm.trans hnext)
    obtain ⟨hids, hlast⟩ := ih (nextId?_drawn hnext hmade)
    refine ⟨?_, ?_⟩
    · rw [List.map_cons, List.length_cons, List.range_succ_eq_map, List.map_cons, List.map_map, hd,
        hids]
      simp [Function.comp_def, Int.add_comm, Int.add_left_comm]
    · rw [hlast, List.length_cons]
      congr 2
      omega

end World

end TraitFactory
