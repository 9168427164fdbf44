import TraitFactory.Interpreter
import TraitFactory.Proofs.Execution

/-!
# Hooks and the arguments they take

A hook is called with more arguments or with fewer, and which of the two is settled by one number,
the positional arity of what it can still be given. The number does not tell required parameters
from defaulted ones, and knows nothing of keywords. It is enough nevertheless: between a count of
arguments that fits and the arity, every count fits.
-/

namespace TraitFactory

/-! ## 1. Parameters that are left

What a binding leaves of a list of parameters, by how many of them are positional and whether one
of them takes any number of arguments. -/

namespace Signature

theorem positionals_cons (p : Parameter) (s : Signature) :
    positionals (p :: s) = (if p.isPositional then 1 else 0) + positionals s := by
  cases h : p.isPositional <;> simp [positionals, h, Nat.add_comm]

theorem isVariadic_cons (p : Parameter) (s : Signature) :
    isVariadic (p :: s) = (p == .variadic || isVariadic s) := by
  cases p <;> simp [isVariadic]

theorem arity_cons {p : Parameter} (h : p ≠ .variadic) (s : Signature) :
    arity (p :: s) = if arity s = unboundedArity then unboundedArity
      else (if p.isPositional then 1 else 0) + arity s := by
  cases p <;> first | exact absurd rfl h | rfl

/-- **A variadic parameter** makes the arity as large as it gets, wherever it stands. -/
theorem arity_of_isVariadic {s : Signature} (h : s.isVariadic = true) :
    s.arity = unboundedArity := by
  induction s with
  | nil => cases h
  | cons p s ih =>
    by_cases hp : p = .variadic
    · subst hp
      rfl
    · have hs : isVariadic s = true := by simpa [isVariadic_cons, hp] using h
      rw [arity_cons hp, if_pos (ih hs)]

/-- Without a variadic parameter the arity counts the positional ones, as far as it counts. -/
theorem arity_of_not_isVariadic {s : Signature} (h : s.isVariadic = false) :
    s.arity = min s.positionals unboundedArity := by
  induction s with
  | nil => rfl
  | cons p s ih =>
    rw [isVariadic_cons, Bool.or_eq_false_iff] at h
    rw [arity_cons (by simpa using h.1), ih h.2, positionals_cons]
    split <;> split <;> omega

theorem positionals_dropPositionals (n : Nat) (s : Signature) :
    (s.dropPositionals n).positionals = s.positionals - n := by
  fun_induction dropPositionals n s with
  | case1 s => rfl
  | case2 n => simp [positionals]
  | case3 n p s hp ih => rw [ih, positionals_cons, if_pos hp]; omega
  | case4 n p s hp ih => rw [positionals_cons, positionals_cons, if_neg hp, ih]; omega

/-- A binding fills positional parameters only, so a variadic one is left. -/
theorem isVariadic_dropPositionals (n : Nat) (s : Signature) :
    (s.dropPositionals n).isVariadic = s.isVariadic := by
  fun_induction dropPositionals n s with
  | case1 s => rfl
  | case2 n => rfl
  | case3 n p s hp ih =>
    have : p ≠ .variadic := by rintro rfl; cases hp
    rw [ih, isVariadic_cons, beq_false_of_ne this, Bool.false_or]
  | case4 n p s hp ih => rw [isVariadic_cons, isVariadic_cons, ih]

theorem accepts_iff (s : Signature) (count : Nat) :
    s.accepts count = true ↔ s.needsKeyword = false ∧ s.required ≤ count ∧
      (s.isVariadic = true ∨ count ≤ s.positionals) := by
  simp [accepts, and_assoc]

end Signature

/-! ## 2. Counts of arguments that fit -/

namespace FunctionHead

/-- The signature of a function can be inspected unless more was bound than it takes. -/
def Inspectable (f : FunctionHead) : Prop :=
  f.binding.count ≤ f.signature.positionals ∨ f.signature.isVariadic = true

/-- **So many arguments are accepted**, besides those that are bound already. -/
def Fits (f : FunctionHead) (count : Nat) : Prop :=
  f.signature.accepts (f.binding.count + count) = true

instance (f : FunctionHead) : Decidable f.Inspectable :=
  inferInstanceAs (Decidable (_ ∨ _))

instance (f : FunctionHead) (count : Nat) : Decidable (f.Fits count) :=
  inferInstanceAs (Decidable (_ = _))

variable {f : FunctionHead}

/-- The arity of what can be inspected, without the case that nothing is known. -/
theorem arity_eq (h : f.Inspectable) :
    f.arity = if f.signature.isVariadic then Signature.unboundedArity
      else min (f.signature.positionals - f.binding.count) Signature.unboundedArity := by
  have hbound : f.arity = (f.signature.dropPositionals f.binding.count).arity := by
    rw [arity, Signature.boundArity, if_pos (by simpa [Inspectable] using h)]
  have hvariadic := Signature.isVariadic_dropPositionals f.binding.count f.signature
  rw [hbound]
  cases hs : f.signature.isVariadic <;> rw [hs] at hvariadic
  · rw [Signature.arity_of_not_isVariadic hvariadic, Signature.positionals_dropPositionals]
    rfl
  · rw [Signature.arity_of_isVariadic hvariadic]
    rfl

/-- **What fits is within the arity**, however many of the parameters have defaults. -/
theorem le_arity_of_fits (hf : f.Inspectable) {count : Nat}
    (hcount : count ≤ Signature.unboundedArity) (h : f.Fits count) : count ≤ f.arity := by
  obtain ⟨-, -, hmost⟩ := (Signature.accepts_iff _ _).mp h
  rw [arity_eq hf]
  split
  · exact hcount
  · rename_i hs
    have := hmost.resolve_left hs
    omega

/-- **Between a count that fits and the arity every count fits**: what is required is filled
already, and there is a parameter for each argument more. -/
theorem fits_of_le_arity (hf : f.Inspectable) {fewer count : Nat} (h : f.Fits fewer)
    (hfewer : fewer ≤ count) (hcount : count ≤ f.arity) : f.Fits count := by
  obtain ⟨hkeyword, hrequired, hmost⟩ := (Signature.accepts_iff _ _).mp h
  rw [arity_eq hf] at hcount
  refine (Signature.accepts_iff _ _).mpr ⟨hkeyword, by omega, ?_⟩
  split at hcount
  · rename_i hs
    exact .inl hs
  · rename_i hs
    have := hmost.resolve_left hs
    have := hf.resolve_right hs
    exact .inr (by omega)

end FunctionHead

/-! ## 3. Calls that get through -/

namespace Action

variable {d : Nat} {f : Function} {w : World}

/-- **A call gets through**: the function accepts the arguments, and all that is done is to run
its body on them. -/
def Enters (d : Nat) (f : Function) (arguments : List Value) (w : World)
    (a : Action Value) : Prop :=
  (boundArguments f arguments).isSome ∧
    a.execute w = (callFunction (Host.ofDepth d) f arguments).execute w

/-- **A hook is called with what it takes**: with more if that fits, or else with less if that
does. -/
def Suits (d : Nat) (f : Function) (fewer more : List Value) (w : World)
    (a : Action Value) : Prop :=
  (f.Fits more.length → Enters d f more w a) ∧
    (f.Fits fewer.length → ¬ f.Fits more.length → Enters d f fewer w a)

theorem isSome_boundArguments (arguments : List Value) :
    (boundArguments f arguments).isSome = true ↔ f.Fits arguments.length := by
  rw [boundArguments, FunctionHead.Fits]
  cases f.binding <;> simp [Binding.count, Nat.add_comm]

theorem execute_call {id : FunctionId} (hf : w.function? id = some f) (arguments : List Value) :
    ((Host.ofDepth (d + 1)).call (.function id) arguments).execute w =
      (callFunction (Host.ofDepth d) f arguments).execute w := by
  show (callValue (Host.ofDepth d) (.function id) arguments).execute w = _
  rw [callValue, execute_bind_ok (execute_get w), hf]

theorem arity_function {id : FunctionId} (hf : w.function? id = some f) :
    w.arity (.function id) = f.arity := by
  rw [World.arity, hf]
  rfl

/-- **Going by the arity suits**, where one more argument or one fewer is in question. -/
theorem suits_of_arity (hinspect : f.Inspectable) {fewer more : List Value}
    (hmore : more.length = fewer.length + 1) (hbound : more.length ≤ Signature.unboundedArity)
    {a : Action Value}
    (ha : a.execute w = (callFunction (Host.ofDepth d) f
      (if more.length ≤ f.arity then more else fewer)).execute w) :
    Suits d f fewer more w a := by
  refine ⟨fun hfits => ?_, fun hfits hnot => ?_⟩
  · rw [if_pos (FunctionHead.le_arity_of_fits hinspect hbound hfits)] at ha
    exact ⟨(isSome_boundArguments more).mpr hfits, ha⟩
  · -- Within the arity the larger count would fit as well.
    have hover : ¬ more.length ≤ f.arity := fun h =>
      hnot (FunctionHead.fits_of_le_arity hinspect hfits (by omega) h)
    rw [if_neg hover] at ha
    exact ⟨(isSome_boundArguments fewer).mpr hfits, ha⟩

/-- A callback is given the context where the arity leaves room for two. -/
theorem execute_invoke {id : FunctionId} (hf : w.function? id = some f) (v context : Value) :
    (invoke (Host.ofDepth (d + 1)) (.function id) v context).execute w =
      (callFunction (Host.ofDepth d) f (if 2 ≤ f.arity then [v, context] else [v])).execute w := by
  rw [invoke, execute_bind_ok (execute_get w), arity_function hf]
  split <;> exact execute_call hf _

/-- A computation is given the context where the arity leaves room for one. -/
theorem execute_givingContext {id : FunctionId} (hf : w.function? id = some f) (context : Value) :
    (do
      if (← get).arity (.function id) = 0 then (Host.ofDepth (d + 1)).call (.function id) []
      else (Host.ofDepth (d + 1)).call (.function id) [context] : Action Value).execute w =
      (callFunction (Host.ofDepth d) f (if 1 ≤ f.arity then [context] else [])).execute w := by
  rw [execute_bind_ok (execute_get w), arity_function hf]
  by_cases h : f.arity = 0
  · rw [if_pos h, if_neg (by omega), execute_call hf]
  · rw [if_neg h, if_pos (by omega), execute_call hf]

/-- **Hooks are called with arguments that they accept**, whatever their parameters are and
however they are bound: a callback with the instance and the context, or with the instance alone;
a computed attribute's function with the context, or with nothing, be it asked for by an
evaluation or by its own method. The context is passed wherever it is accepted. -/
theorem hooks_fit {id : FunctionId} (hf : w.function? id = some f) (hinspect : f.Inspectable)
    (d : Nat) (v context : Value) (e : EvaluationId) (o : ObjectId) :
    Suits d f [v] [v, context] w (invoke (Host.ofDepth (d + 1)) (.function id) v context) ∧
    Suits d f [] [.context e] w (evaluateComputed (Host.ofDepth (d + 1)) e (.function id)) ∧
    Suits d f [] [context] w
      (callObject (Host.ofDepth (d + 1)) o (.attr (.computed (.function id))) "evaluate"
        [context] []) := by
  refine ⟨?_, ?_, ?_⟩
  · exact suits_of_arity hinspect rfl (by simp [Signature.unboundedArity])
      (execute_invoke hf v context)
  · exact suits_of_arity hinspect rfl (by simp [Signature.unboundedArity])
      (execute_givingContext hf (.context e))
  · exact suits_of_arity hinspect rfl (by simp [Signature.unboundedArity])
      (execute_givingContext hf context)

/-- A method with a required parameter besides its receiver, a defaulted one and a keyword. -/
def greeting : Function where
  name := "greet"
  signature := [.positional, .positional, .defaulted, .defaultedKeyword]
  binding := .receiver
  body := fun seen => .done (.int seen.length)

theorem hooks_fit_greeting :
    greeting.Inspectable ∧ greeting.Fits 1 ∧ greeting.Fits 2 ∧ ¬ greeting.Fits 0 ∧
    let w : World := { (default : World) with functions := #[greeting] }
    Suits 0 greeting [.null] [.null, .bool true] w
        (invoke (Host.ofDepth 1) (.function ⟨0⟩) .null (.bool true)) ∧
      Suits 0 greeting [] [.context ⟨0⟩] w
        (evaluateComputed (Host.ofDepth 1) ⟨0⟩ (.function ⟨0⟩)) ∧
      Suits 0 greeting [] [.null] w
        (callObject (Host.ofDepth 1) ⟨0⟩ (.attr (.computed (.function ⟨0⟩))) "evaluate"
          [.null] []) := by
  refine ⟨by decide, by decide, by decide, by decide, ?_⟩
  have hf : ({ (default : World) with functions := #[greeting] } : World).function? ⟨0⟩ =
      some greeting := rfl
  have h := fun v context => hooks_fit hf (by decide) 0 v context ⟨0⟩ ⟨0⟩
  exact ⟨(h .null (.bool true)).1, (h .null .null).2.1, (h .null .null).2.2⟩

end Action

end TraitFactory
