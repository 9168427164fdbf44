import TraitFactory.Value

/-!
# Slots

A part that can change is kept by its owner itself as long as nobody else holds it. Once it has
been handed out, or something else has been put in its place, the owner only refers to it.
-/

namespace TraitFactory

/-- **A part that its owner keeps itself, or a value that stands in its place.** -/
inductive Slot (α : Type) where
  | own (x : α)
  | given (v : Value)
  deriving DecidableEq, Repr

namespace Slot

variable {α : Type}

instance [Inhabited α] : Inhabited (Slot α) := ⟨.own default⟩

/-- What the owner keeps itself, if it does. -/
def own? : Slot α → Option α
  | .own x => some x
  | .given _ => none

/-- Changes what the owner keeps itself. -/
def modify (s : Slot α) (f : α → α) : Slot α :=
  match s with
  | .own x => .own (f x)
  | .given v => .given v

@[simp] theorem own?_own (x : α) : (own x).own? = some x := rfl

@[simp] theorem modify_own (x : α) (f : α → α) : (own x).modify f = .own (f x) := rfl

end Slot

end TraitFactory
