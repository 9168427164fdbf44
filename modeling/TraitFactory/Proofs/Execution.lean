import TraitFactory.World

/-!
# Execution of actions

How an action built from others runs in a world, and two ways to state what it does there.
`Keeps` says that a relation holds between the worlds before and after, whatever the outcome:
a frame. `Leads` says what holds after a result and what holds after a failure: both are computed
from the parts of an action, one lemma for each way of putting actions together.
-/

namespace TraitFactory

namespace Action

variable {α β : Type}

/-! ## 1. Running the parts of an action -/

theorem execute_pure (x : α) (w : World) : (pure x : Action α).execute w = (.ok x, w) := rfl

theorem execute_get (w : World) : (get : Action World).execute w = (.ok w, w) := rfl

theorem execute_modify (f : World → World) (w : World) :
    (modify f : Action PUnit).execute w = (.ok ⟨⟩, f w) := rfl

/-- A failure ends a sequence of actions; a result is handed on, together with the world. -/
theorem execute_bind (a : Action α) (f : α → Action β) (w : World) :
    (a >>= f).execute w = match a.execute w with
      | (.ok x, w') => (f x).execute w'
      | (.error e, w') => (.error e, w') := by
  -- The two layers of the monad, failures over worlds, are opened here once and for all.
  rcases h : a.execute w with ⟨_ | x, w'⟩ <;>
    simp only [execute, ExceptT.run_bind, StateT.run_bind] at h ⊢ <;> simp [h] <;> rfl

theorem execute_bind_ok {a : Action α} {f : α → Action β} {w w' : World} {x : α}
    (h : a.execute w = (.ok x, w')) : (a >>= f).execute w = (f x).execute w' := by
  rw [execute_bind, h]

theorem execute_bind_error {a : Action α} {f : α → Action β} {w w' : World} {e : Failure}
    (h : a.execute w = (.error e, w')) : (a >>= f).execute w = (.error e, w') := by
  rw [execute_bind, h]

/-- An action that gave a result did so by its first part giving one. -/
theorem ok_of_execute_bind {a : Action α} {f : α → Action β} {w w' : World} {y : β}
    (h : (a >>= f).execute w = (.ok y, w')) :
    ∃ x w₁, a.execute w = (.ok x, w₁) ∧ (f x).execute w₁ = (.ok y, w') := by
  rw [execute_bind] at h
  rcases ha : a.execute w with ⟨e | x, w₁⟩ <;> rw [ha] at h
  · cases h
  · exact ⟨x, w₁, rfl, h⟩

/-- An action by what it comes to alone. -/
theorem execute_of_outcome {a : Action α} {w : World} {x : Except Failure α}
    (h : (a.execute w).1 = x) : a.execute w = (x, (a.execute w).2) := Prod.ext h rfl

/-- A failure is handled in the world that it left. -/
theorem execute_tryCatch (a : Action α) (handle : Failure → Action α) (w : World) :
    (tryCatch a handle).execute w = match a.execute w with
      | (.ok x, w') => (.ok x, w')
      | (.error e, w') => (handle e).execute w' := by
  rcases h : a.execute w with ⟨_ | x, w'⟩ <;>
    simp only [execute, StateT.run, ExceptT.run, tryCatch, tryCatchThe, MonadExceptOf.tryCatch,
      ExceptT.tryCatch, ExceptT.mk, bind, StateT.bind] at h ⊢ <;> rw [h] <;> rfl

theorem execute_attempt (a : Action α) (w : World) :
    (attempt a).execute w = (.ok (a.execute w).1, (a.execute w).2) := by
  have hmap : (Except.ok <$> a : Action (Except Failure α)) = a >>= fun x => pure (.ok x) :=
    (bind_pure_comp _ _).symm
  rw [attempt, execute_tryCatch, hmap, execute_bind]
  rcases a.execute w with ⟨_ | x, w'⟩ <;> rfl

/-- Handling a failure is going on with what came of an action. -/
theorem tryCatch_eq (a : Action α) (handle : Failure → Action α) :
    tryCatch a handle = attempt a >>= fun
      | .ok x => pure x
      | .error failure => handle failure := by
  funext w
  show (tryCatch a handle).execute w = execute _ w
  rw [execute_tryCatch, execute_bind_ok (execute_attempt a w)]
  rcases a.execute w with ⟨_ | x, w'⟩ <;> rfl

/-! ## 2. Frames -/

end Action

/-- **What may happen to a world** while other things are done: nothing, and one such change
after another. -/
structure Frame where
  rel : World → World → Prop
  refl : ∀ w, rel w w
  trans : ∀ {w₁ w₂ w₃}, rel w₁ w₂ → rel w₂ w₃ → rel w₁ w₃

/-- The frame of what changes nothing at all. -/
def Frame.same : Frame := ⟨fun w w' => w' = w, fun _ => rfl, fun h h' => h'.trans h⟩

/-- **A frame with room for more**: objects and serial numbers may be made. -/
class Frame.Roomy (F : Frame) : Prop where
  object : ∀ w x, F.rel w { w with heap := (w.heap.alloc x).2 }
  serial : ∀ w n, F.rel w { w with heap := { w.heap with serials := n } }

/-- **A frame to which objects do not matter**: they may be made and changed, as may the parts of
values that are made when they are asked for, and anything may be logged. -/
class Frame.Lenient (F : Frame) : Prop where
  heap : ∀ w h, w.heap.size ≤ h.size → F.rel w { w with heap := h }
  made : ∀ w made, F.rel w { w with made := made }
  log : ∀ w log, F.rel w { w with log := log }

instance (F : Frame) [F.Lenient] : F.Roomy where
  object w x := Frame.Lenient.heap w _ (by simp [Heap.size, Heap.alloc])
  serial w _ := Frame.Lenient.heap w _ (Nat.le_refl _)

namespace Action

/-- **An action stays within a frame**, whether it gives a result or fails. -/
def Keeps (F : Frame) (a : Action α) : Prop := ∀ w, F.rel w (a.execute w).2

section Keeping

variable {F : Frame}

theorem keeps_pure (x : α) : Keeps F (pure x : Action α) := fun w => F.refl w

theorem keeps_throw (e : Failure) : Keeps F (throw e : Action α) := fun w => F.refl w

theorem keeps_fail (c : Cause) : Keeps F (fail c : Action α) := fun w => F.refl w

/-- After a failure nothing else is done. -/
theorem keeps_fail_bind (c : Cause) (f : β → Action α) : Keeps F (fail c >>= f) :=
  fun w => F.refl w

theorem keeps_wrongType : Keeps F (wrongType : Action α) := keeps_fail _

theorem keeps_noAttribute : Keeps F (noAttribute : Action α) := keeps_fail _

theorem keeps_get : Keeps F (get : Action World) := fun w => F.refl w

theorem keeps_bind {a : Action α} {f : α → Action β} (ha : Keeps F a) (hf : ∀ x, Keeps F (f x)) :
    Keeps F (a >>= f) := by
  intro w
  have h := ha w
  rw [execute_bind]
  rcases hx : a.execute w with ⟨_ | x, w'⟩ <;> rw [hx] at h
  · exact h
  · exact F.trans h (hf x w')

/-- What is read of the world is known of the world it is read in. -/
theorem keeps_get_bind {f : World → Action β} (h : ∀ w, F.rel w ((f w).execute w).2) :
    Keeps F (get >>= f) := by
  intro w
  rw [execute_bind_ok (execute_get w)]
  exact h w

theorem keeps_map {a : Action α} (f : α → β) (ha : Keeps F a) : Keeps F (f <$> a) := by
  rw [← bind_pure_comp]
  exact keeps_bind ha fun x => keeps_pure (f x)

theorem keeps_modify {f : World → World} (h : ∀ w, F.rel w (f w)) :
    Keeps F (modify f : Action PUnit) := h

theorem keeps_mapM {f : α → Action β} (xs : List α) (h : ∀ x, Keeps F (f x)) :
    Keeps F (xs.mapM f) := by
  induction xs with
  | nil => exact keeps_pure []
  | cons x xs ih =>
    rw [List.mapM_cons]
    exact keeps_bind (h x) fun y => keeps_bind ih fun ys => keeps_pure (y :: ys)

theorem keeps_tryCatch {a : Action α} {handle : Failure → Action α} (ha : Keeps F a)
    (hh : ∀ e, Keeps F (handle e)) : Keeps F (tryCatch a handle) := by
  intro w
  have h := ha w
  rw [execute_tryCatch]
  rcases hx : a.execute w with ⟨e | _, w'⟩ <;> rw [hx] at h
  · exact F.trans h (hh e w')
  · exact h

theorem keeps_attempt {a : Action α} (ha : Keeps F a) : Keeps F (attempt a) :=
  keeps_tryCatch (keeps_map _ ha) fun _ => keeps_pure _

theorem keeps_noting {a : Action α} (note : String) (ha : Keeps F a) : Keeps F (noting note a) :=
  keeps_tryCatch ha fun _ => keeps_throw _

theorem keeps_ofCause (r : Except Cause α) : Keeps F (ofCause r) := by
  -- What is already an outcome reads nothing.
  cases r with
  | ok x => exact keeps_pure x
  | error c => exact keeps_fail c

end Keeping

/-! ## 3. Outcomes -/

/-- **What an action leads to** in a world: `done` after a result, `failed` after a failure. -/
def Leads (a : Action α) (w : World) (done : α → World → Prop) (failed : World → Prop) : Prop :=
  match a.execute w with
  | (.ok x, w') => done x w'
  | (.error _, w') => failed w'

section Leading

variable {w : World} {done : α → World → Prop} {failed : World → Prop}

theorem leads_bind {a : Action β} {f : β → Action α} :
    Leads (a >>= f) w done failed ↔
      Leads a w (fun x w' => Leads (f x) w' done failed) failed := by
  unfold Leads
  rw [execute_bind]
  rcases a.execute w with ⟨_ | x, w'⟩ <;> exact Iff.rfl

theorem Leads.imp {a : Action α} {done' : α → World → Prop} {failed' : World → Prop}
    (h : Leads a w done failed) (hd : ∀ x w', done x w' → done' x w')
    (hf : ∀ w', failed w' → failed' w') : Leads a w done' failed' := by
  unfold Leads at h ⊢
  rcases he : a.execute w with ⟨_ | x, w'⟩ <;> rw [he] at h
  · exact hf w' h
  · exact hd x w' h

/-- What holds throughout a frame holds after an action that stays within it. -/
theorem Keeps.leads {F : Frame} {a : Action α} (h : Keeps F a)
    (hd : ∀ x w', F.rel w w' → done x w') (hf : ∀ w', F.rel w w' → failed w') :
    Leads a w done failed := by
  have h := h w
  unfold Leads
  rcases he : a.execute w with ⟨_ | x, w'⟩ <;> rw [he] at h
  · exact hf w' h
  · exact hd x w' h

end Leading

end Action

end TraitFactory
