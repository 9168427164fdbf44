import TraitFactory.Proofs.Execution
import TraitFactory.Runner

/-!
# Recorded runs

What an evaluation does cannot be read off the world that it leaves. Here the same actions are
given so that they tell what they do, mark by mark, and what is called tells it, too. Each is
proved to come to what the action itself comes to: without its marks it is the action.
-/

namespace TraitFactory

/-! ## 1. Marks -/

/-- **What an evaluation does** on its way: what it does to each attribute, to the instance, and for
each callback. -/
inductive Deed where
  | resolves (name : String)
  | computes (name : String)
  | constructs
  | assigns (name : String)
  /-- Takes a synthetic id. -/
  | numbers
  | disables (method : String)
  | persists
  | calls (callback : Callback)
  deriving DecidableEq, Repr

/-- How a deed ended. One that finds nothing to do is left at that. -/
inductive Ending where
  | done
  | idle
  | failed (failure : Failure)
  deriving DecidableEq, Repr

/-- **What is told of a run**: that an evaluation of a plan begins under a strategy, for an
association of another evaluation if it is a nested one, where each of its deeds starts and ends,
and which instance it makes. It is also told where a function that was called meddles with
evaluation. -/
inductive Mark where
  | begins (e : EvaluationId) (plan : Plan) (strategy : Strategy)
      (cause : Option (EvaluationId × Association))
  | starts (e : EvaluationId) (deed : Deed)
  | ends (e : EvaluationId) (deed : Deed) (ending : Ending)
  | makes (e : EvaluationId) (v : Value)
  | meddles
  deriving DecidableEq, Repr

/-- **An action that tells what it does.** -/
def Recorded (α : Type) := World → (Except Failure α × World) × List Mark

/-- How what came to some outcome has ended. -/
def Ending.of {α : Type} : Except Failure α → Ending
  | .ok _ => .done
  | .error failure => .failed failure

namespace Recorded

variable {α β : Type}

instance : Monad Recorded where
  pure x := fun w => ((.ok x, w), [])
  bind r f := fun w =>
    match r w with
    | ((.ok x, w'), marks) => ((f x w').1, marks ++ (f x w').2)
    | ((.error failure, w'), marks) => ((.error failure, w'), marks)

/-- An action that tells nothing. -/
def silent (a : Action α) : Recorded α := fun w => (a.execute w, [])

def tell (mark : Mark) : Recorded Unit := fun w => ((.ok (), w), [mark])

def attempt (r : Recorded α) : Recorded (Except Failure α) := fun w =>
  ((.ok (r w).1.1, (r w).1.2), (r w).2)

/-- Goes on with `handle` after a failure. -/
def recover (r : Recorded α) (handle : Failure → Recorded α) : Recorded α := fun w =>
  match r w with
  | ((.ok x, w'), marks) => ((.ok x, w'), marks)
  | ((.error failure, w'), marks) => ((handle failure w').1, marks ++ (handle failure w').2)

def noting (note : String) (r : Recorded α) : Recorded α :=
  r.recover fun failure => silent (throw (failure.addNote note))

/-- **Tells of a deed** while it is done. -/
def doing (e : EvaluationId) (deed : Deed) (r : Recorded α) : Recorded α := fun w =>
  ((r w).1, .starts e deed :: (r w).2 ++ [.ends e deed (.of (r w).1.1)])

/-- Tells of a deed that is done only where it is found to be needed. -/
def doingIf (e : EvaluationId) (deed : Deed) (needed : Recorded Bool) (r : Recorded Unit) :
    Recorded Unit := fun w =>
  match needed w with
  | ((.ok true, w'), marks) =>
    ((r w').1, .starts e deed :: marks ++ (r w').2 ++ [.ends e deed (.of (r w').1.1)])
  | ((.ok false, w'), marks) =>
    ((.ok (), w'), .starts e deed :: marks ++ [.ends e deed .idle])
  | ((.error failure, w'), marks) =>
    ((.error failure, w'), .starts e deed :: marks ++ [.ends e deed (.failed failure)])

/-! ## 2. Recording an action -/

theorem bind_ok {r : Recorded α} {f : α → Recorded β} {w w' : World} {x : α} {marks : List Mark}
    (h : r w = ((.ok x, w'), marks)) : (r >>= f) w = ((f x w').1, marks ++ (f x w').2) := by
  show (match r w with
    | ((.ok x, w'), marks) => ((f x w').1, marks ++ (f x w').2)
    | ((.error failure, w'), marks) => ((.error failure, w'), marks)) = _
  rw [h]

theorem bind_error {r : Recorded α} {f : α → Recorded β} {w w' : World} {failure : Failure}
    {marks : List Mark} (h : r w = ((.error failure, w'), marks)) :
    (r >>= f) w = ((.error failure, w'), marks) := by
  show (match r w with
    | ((.ok x, w'), marks) => ((f x w').1, marks ++ (f x w').2)
    | ((.error failure, w'), marks) => ((.error failure, w'), marks)) = _
  rw [h]

/-- A recording that gave a result did so by its first part giving one. -/
theorem ok_of_bind {r : Recorded α} {f : α → Recorded β} {w w' : World} {y : β}
    {marks : List Mark} (h : (r >>= f) w = ((.ok y, w'), marks)) :
    ∃ x w₁ marks₁ marks₂, r w = ((.ok x, w₁), marks₁) ∧ f x w₁ = ((.ok y, w'), marks₂) ∧
      marks = marks₁ ++ marks₂ := by
  rcases hr : r w with ⟨⟨failure | x, w₁⟩, marks₁⟩
  · rw [bind_error hr] at h
    cases h
  · rw [bind_ok hr] at h
    have hfst : (f x w₁).1 = (.ok y, w') := congrArg Prod.fst h
    exact ⟨x, w₁, marks₁, (f x w₁).2, rfl, Prod.ext hfst rfl, (congrArg Prod.snd h).symm⟩

protected theorem bind_pure (r : Recorded α) : (r >>= pure) = r := by
  funext w
  rcases hr : r w with ⟨⟨failure | x, w'⟩, marks⟩
  · exact bind_error hr
  · rw [bind_ok hr]
    exact congrArg (Prod.mk _) (List.append_nil marks)

protected theorem bind_assoc {γ : Type} (r : Recorded α) (f : α → Recorded β) (g : β → Recorded γ) :
    (r >>= f) >>= g = r >>= fun x => f x >>= g := by
  funext w
  rcases hr : r w with ⟨⟨failure | x, w'⟩, marks⟩
  · rw [bind_error (bind_error hr), bind_error hr]
  · have hrf := bind_ok (f := f) hr
    rw [bind_ok hr]
    rcases hf : f x w' with ⟨⟨failure | y, w''⟩, marks'⟩ <;> rw [hf] at hrf
    · rw [bind_error hrf, bind_error hf]
    · rw [bind_ok hrf, bind_ok hf, List.append_assoc]

instance : LawfulMonad Recorded :=
  LawfulMonad.mk' Recorded Recorded.bind_pure (fun _ _ => rfl) Recorded.bind_assoc

/-- **A recording comes to what the action comes to**, whatever it tells. -/
def Records (r : Recorded α) (a : Action α) : Prop := ∀ w, (r w).1 = a.execute w

theorem records_pure (x : α) : Records (pure x : Recorded α) (pure x) := fun _ => rfl

theorem records_silent (a : Action α) : Records (silent a) a := fun _ => rfl

/-- What is done before anything is told. -/
theorem silent_bind_ok {a : Action α} {f : α → Recorded β} {w w' : World} {x : α}
    (h : a.execute w = (.ok x, w')) : (silent a >>= f) w = f x w' := by
  have hsilent : silent a w = ((.ok x, w'), []) := by rw [silent, h]
  rw [bind_ok hsilent]
  rfl

theorem records_tell (mark : Mark) : Records (tell mark) (pure ()) := fun _ => rfl

theorem Records.bind {r : Recorded α} {a : Action α} {f : α → Recorded β} {g : α → Action β}
    (h : Records r a) (hf : ∀ x, Records (f x) (g x)) : Records (r >>= f) (a >>= g) := by
  intro w
  have hw := h w
  rcases hr : r w with ⟨⟨failure | x, w'⟩, marks⟩ <;> rw [hr] at hw
  · rw [bind_error hr, Action.execute_bind_error hw.symm]
  · rw [bind_ok hr, Action.execute_bind_ok hw.symm]
    exact hf x w'

/-- What an action does before it tells anything. -/
theorem records_silent_bind {a : Action α} {f : α → Recorded β} {g : α → Action β}
    (hf : ∀ x, Records (f x) (g x)) : Records (silent a >>= f) (a >>= g) :=
  (records_silent a).bind hf

theorem Records.attempt {r : Recorded α} {a : Action α} (h : Records r a) :
    Records r.attempt (Action.attempt a) := by
  intro w
  rw [Action.execute_attempt, ← h w]
  rfl

theorem Records.recover {r : Recorded α} {a : Action α} {handle : Failure → Recorded α}
    {handle' : Failure → Action α} (h : Records r a)
    (hhandle : ∀ failure, Records (handle failure) (handle' failure)) :
    Records (r.recover handle) (tryCatch a handle') := by
  intro w
  have hw := h w
  rcases hr : r w with ⟨⟨failure | x, w'⟩, marks⟩ <;> rw [hr] at hw
  · rw [Action.execute_tryCatch, ← hw, Recorded.recover, hr]
    exact hhandle failure w'
  · rw [Action.execute_tryCatch, ← hw, Recorded.recover, hr]

theorem Records.noting {r : Recorded α} {a : Action α} (note : String) (h : Records r a) :
    Records (r.noting note) (Action.noting note a) := h.recover fun _ => records_silent _

theorem Records.doing {r : Recorded α} {a : Action α} (e : EvaluationId) (deed : Deed)
    (h : Records r a) : Records (r.doing e deed) a := h

theorem Records.doingIf {needed : Recorded Bool} {c : Action Bool} {r : Recorded Unit}
    {a : Action Unit} (e : EvaluationId) (deed : Deed) (hc : Records needed c) (h : Records r a) :
    Records (doingIf e deed needed r) (c >>= fun b => if b then a else pure ()) := by
  intro w
  have hw := hc w
  rcases hr : needed w with ⟨⟨failure | b, w'⟩, marks⟩ <;> rw [hr] at hw
  · rw [Recorded.doingIf, hr, Action.execute_bind_error hw.symm]
  · rw [Recorded.doingIf, hr, Action.execute_bind_ok hw.symm]
    cases b with
    | true => exact h w'
    | false => rfl

theorem records_mapM {f : α → Recorded β} {g : α → Action β} (h : ∀ x, Records (f x) (g x))
    (xs : List α) : Records (xs.mapM f) (xs.mapM g) := by
  induction xs with
  | nil => exact records_pure []
  | cons x xs ih =>
    rw [List.mapM_cons, List.mapM_cons]
    exact (h x).bind fun y => ih.bind fun ys => records_pure _

theorem records_forM {f : α → Recorded Unit} {g : α → Action Unit}
    (h : ∀ x, Records (f x) (g x)) (xs : List α) : Records (xs.forM f) (xs.forM g) := by
  induction xs with
  | nil => exact records_pure ()
  | cons x xs ih =>
    exact (h x).bind fun _ => ih

end Recorded

end TraitFactory
