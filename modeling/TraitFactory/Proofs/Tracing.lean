import TraitFactory.Proofs.Execution

/-!
# Following failures

A failure is told, on its way out, of what it crosses. Here actions are given so that they know at
each moment what is open around them: the attributes that are being read, and the constructors,
persistors and callbacks that are being called. Where they fail, they tell as what the failure was
raised and what was open around it there.
-/

namespace TraitFactory

/-! ## 1. What a failure crosses -/

/-- **What a failure crosses on its way out**: the reading of an attribute, with the origin of the
declaration by which it is computed and the factory of the evaluation, or a call of a constructor, a
persistor or a callback. -/
inductive Crossing where
  | read (name origin factory : String)
  | constructor (factory : String)
  | persistor (factory : String)
  | callback (event : Event) (owner : String)
  deriving DecidableEq, Repr

namespace Crossing

/-- What a failure is told that crosses it. -/
def words : Crossing → String
  | .read name origin factory =>
    s!"while evaluating attribute '{name}' ({origin}) of factory '{factory}'"
  | .constructor factory => s!"while running the constructor of factory '{factory}'"
  | .persistor factory => s!"while running the persistor of factory '{factory}'"
  | .callback event owner => s!"while running {event.name} callback from {owner}"

/-- Whether a failure is told of it. The library's own failures are not told of attributes. -/
def isTold (cause : Cause) : Crossing → Bool
  | .read _ _ _ => !cause.isOwn
  | _ => true

end Crossing

namespace Failure

/-- A failure that has crossed something. -/
def across (failure : Failure) (c : Crossing) : Failure :=
  if c.isTold failure.cause then failure.addNote c.words else failure

/-- **A failure that has come all along a way**: it is what it was when it was raised, with one note
more for each thing on its way that it is told of, in the order in which it crosses them. -/
def along (raised : Failure) (crossed : List Crossing) : Failure :=
  { raised with
    notes := raised.notes ++ (crossed.filter fun c => c.isTold raised.cause).map Crossing.words }

variable {raised : Failure} {crossed : List Crossing}

theorem along_nil : raised.along [] = raised := by
  rw [along, List.filter_nil, List.map_nil, List.append_nil]

/-- **One thing more is crossed.** -/
theorem along_across (c : Crossing) :
    (raised.along crossed).across c = raised.along (crossed ++ [c]) := by
  have hcause : (raised.along crossed).cause = raised.cause := rfl
  rw [across, hcause, along, along, List.filter_append, List.map_append, ← List.append_assoc]
  by_cases htold : c.isTold raised.cause
  · rw [if_pos htold, List.filter_cons_of_pos htold]
    rfl
  · rw [if_neg htold, List.filter_cons_of_neg htold, List.filter_nil, List.map_nil,
      List.append_nil]

-- A failure of the library's own is told of the constructor, but of no attribute.
example : ((raise (.general "no")).along [.read "name" "factory:user" "user",
      .constructor "user", .read "author" "factory:post" "post"]).notes =
    ["while running the constructor of factory 'user'"] := by
  decide

end Failure

/-- **A failure that is followed**: as it was raised, what was open around it there, the innermost
first, and as it is now. -/
structure Flight where
  raised : Failure
  around : List Crossing
  now : Failure
  deriving DecidableEq, Repr

namespace Flight

/-- A failure as it is raised. -/
def fresh (failure : Failure) (around : List Crossing) : Flight := ⟨failure, around, failure⟩

def across (t : Flight) (c : Crossing) : Flight := { t with now := t.now.across c }

/-- **A failure that is on its way**: it has come along what was open around it where it was raised,
and what is open here is what is left of that. -/
def Under (t : Flight) (around : List Crossing) : Prop :=
  ∃ crossed, t.around = crossed ++ around ∧ t.now = t.raised.along crossed

variable {t : Flight} {around : List Crossing}

theorem under_fresh (failure : Failure) (around : List Crossing) :
    (fresh failure around).Under around := ⟨[], rfl, Failure.along_nil.symm⟩

/-- **One thing is crossed.** -/
theorem Under.across {c : Crossing} (h : t.Under (c :: around)) : (t.across c).Under around := by
  obtain ⟨crossed, haround, hnow⟩ := h
  refine ⟨crossed ++ [c], ?_, ?_⟩
  · rw [List.append_assoc]
    exact haround
  · have hacross : (t.across c).now = (t.raised.along crossed).across c :=
      congrArg (Failure.across · c) hnow
    exact hacross.trans (Failure.along_across c)

/-- A failure that has left all that was open around it has come along all of it. -/
theorem Under.now_eq (h : t.Under []) : t.now = t.raised.along t.around := by
  obtain ⟨crossed, haround, hnow⟩ := h
  rw [hnow, haround, List.append_nil]

end Flight

/-! ## 2. Actions that are followed -/

/-- **An action whose failures are followed**, given what is open around it. -/
def Traced (α : Type) := List Crossing → World → Except Flight α × World

namespace Traced

variable {α β : Type}

instance : Monad Traced where
  pure x := fun _ w => (.ok x, w)
  bind r f := fun around w =>
    match r around w with
    | (.ok x, w') => f x around w'
    | (.error t, w') => (.error t, w')

/-- An action that raises its failures itself. -/
def silent (a : Action α) : Traced α := fun around w =>
  ((a.execute w).1.mapError fun failure => .fresh failure around, (a.execute w).2)

/-- A failure that is passed on. -/
def pass (t : Flight) : Traced α := fun _ w => (.error t, w)

/-- Goes on with what comes of something, whether it fails or not. -/
def settle (r : Traced α) (k : Except Flight α → Traced β) : Traced β := fun around w =>
  k (r around w).1 around (r around w).2

/-- Does something while something else is open around it. -/
def under (c : Crossing) (r : Traced α) : Traced α := fun around => r (c :: around)

/-- **Does something that failures cross** when they leave it. -/
def within (c : Crossing) (r : Traced α) : Traced α :=
  settle (under c r) fun
    | .ok x => pure x
    | .error t => pass (t.across c)

/-! ## 3. Following an action -/

/-- What comes of something that is followed is what comes of it, and its failure is on its way. -/
inductive Agrees (around : List Crossing) :
    Except Flight α × World → Except Failure α × World → Prop
  | ok (x : α) (w : World) : Agrees around (.ok x, w) (.ok x, w)
  | error {t : Flight} (w : World) (h : t.Under around) :
      Agrees around (.error t, w) (.error t.now, w)

/-- **Something follows an action** where something is open: it comes to what the action comes to. -/
def Traces (around : List Crossing) (r : Traced α) (a : Action α) : Prop :=
  ∀ w, Agrees around (r around w) (a.execute w)

variable {around : List Crossing}

theorem traces_pure (x : α) : Traces around (pure x) (pure x : Action α) := fun w => .ok x w

theorem traces_silent (a : Action α) : Traces around (silent a) a := fun w => by
  rw [silent]
  rcases a.execute w with ⟨failure | x, w'⟩
  · exact .error w' (Flight.under_fresh failure around)
  · exact .ok x w'

theorem traces_pass {t : Flight} (h : t.Under around) :
    Traces around (pass t) (throw t.now : Action α) := fun w => .error w h

theorem Traces.bind {r : Traced α} {a : Action α} {f : α → Traced β} {g : α → Action β}
    (h : Traces around r a) (hf : ∀ x, Traces around (f x) (g x)) :
    Traces around (r >>= f) (a >>= g) := by
  intro w
  have hw := h w
  show Agrees around (match r around w with
    | (.ok x, w') => f x around w'
    | (.error t, w') => (.error t, w')) _
  rw [Action.execute_bind]
  generalize r around w = outcome, a.execute w = outcome' at hw
  cases hw with
  | ok x w' => exact hf x w'
  | error w' hunder => exact .error w' hunder

theorem traces_silent_bind {a : Action α} {f : α → Traced β} {g : α → Action β}
    (hf : ∀ x, Traces around (f x) (g x)) : Traces around (silent a >>= f) (a >>= g) :=
  (traces_silent a).bind hf

/-- Going on after something that was open is left, whether it failed or not. -/
theorem Traces.settle {inner : List Crossing} {r r' : Traced α} {a : Action α}
    {k : Except Flight α → Traced β} {g : Except Failure α → Action β} (h : Traces inner r a)
    (hr : r' around = r inner) (hok : ∀ x, Traces around (k (.ok x)) (g (.ok x)))
    (herror : ∀ t : Flight, t.Under inner → Traces around (k (.error t)) (g (.error t.now))) :
    Traces around (settle r' k) (Action.attempt a >>= g) := by
  intro w
  have hw := h w
  rw [Action.execute_bind_ok (Action.execute_attempt a w), Traced.settle, hr]
  generalize r inner w = outcome, a.execute w = outcome' at hw
  cases hw with
  | ok x w' => exact hok x w'
  | error w' hunder => exact herror _ hunder w'

/-- **What is crossed is told.** -/
theorem Traces.within {r : Traced α} {a : Action α} {c : Crossing} (h : Traces (c :: around) r a)
    (htold : ∀ cause, c.isTold cause) : Traces around (within c r) (Action.noting c.words a) := by
  rw [Action.noting, Action.tryCatch_eq]
  refine h.settle rfl (fun x => traces_pure x) fun t hunder => ?_
  have hnote : t.now.addNote c.words = (t.across c).now := (if_pos (htold _)).symm
  dsimp only
  rw [hnote]
  exact traces_pass hunder.across

theorem traces_mapM {f : α → Traced β} {g : α → Action β} (h : ∀ x, Traces around (f x) (g x))
    (xs : List α) : Traces around (xs.mapM' f) (xs.mapM g) := by
  rw [← List.mapM'_eq_mapM]
  induction xs with
  | nil => exact traces_pure []
  | cons x xs ih => exact (h x).bind fun y => ih.bind fun ys => traces_pure _

theorem traces_forM {f : α → Traced Unit} {g : α → Action Unit} (h : ∀ x, Traces around (f x) (g x))
    (xs : List α) : Traces around (xs.forM f) (xs.forM g) := by
  induction xs with
  | nil => exact traces_pure ()
  | cons x xs ih => exact (h x).bind fun _ => ih

end Traced

end TraitFactory
