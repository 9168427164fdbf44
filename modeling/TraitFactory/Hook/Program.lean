import TraitFactory.Hook.Request
import TraitFactory.Signature

/-!
# Programs

What a hook does is an interaction: it asks for something, goes on with the answer, and ends
with a value or a failure. A hook may do anything that programs can express, so a law over all
programs is a law over all hooks.
-/

namespace TraitFactory

/-- The face of a function: its name, its parameters, how it is bound, and whether its calls go
unannounced. -/
structure FunctionHead where
  name : String := "fn"
  signature : Signature := [.positional]
  binding : Binding := .free
  quiet : Bool := false
  deriving DecidableEq, Repr

/-- **Interactions.** A failed request is answered by its failure, which the program may pass on
or recover from. -/
inductive Program where
  | done (v : Value)
  | fail (e : Failure)
  | ask (r : Request) (k : Except Failure Value → Program)
  | define (head : FunctionHead) (body : List Value → Program) (k : Value → Program)

namespace Program

instance : Inhabited Program := ⟨.done .null⟩

/-- Goes on with `f` once the program has ended with a value. -/
def bind : Program → (Value → Program) → Program
  | done v, f => f v
  | fail e, _ => fail e
  | ask r k, f => ask r fun x => (k x).bind f
  | define head body k, f => define head body fun v => (k v).bind f

/-- Goes on with `f` once the program has failed. -/
def rescue : Program → (Failure → Program) → Program
  | done v, _ => done v
  | fail e, f => f e
  | ask r k, f => ask r fun x => (k x).rescue f
  | define head body k, f => define head body fun v => (k v).rescue f

def raise (cause : Cause) : Program := fail (Failure.raise cause)

/-- Asks and passes a failure on. -/
def request (r : Request) (k : Value → Program) : Program :=
  ask r fun
    | .ok v => k v
    | .error e => fail e

theorem bind_done (p : Program) : p.bind done = p := by
  induction p with
  | done v => rfl
  | fail e => rfl
  | ask r k ih => simp only [bind, ih]
  | define head body k _ ih => simp only [bind, ih]

theorem bind_assoc (p : Program) (f g : Value → Program) :
    (p.bind f).bind g = p.bind fun v => (f v).bind g := by
  induction p with
  | done v => rfl
  | fail e => rfl
  | ask r k ih => simp only [bind, ih]
  | define head body k _ ih => simp only [bind, ih]

end Program

/-- **A function**: its face, what it does with its arguments, and the receiver that is the
first of them when it is bound to one. -/
structure Function extends FunctionHead where
  body : List Value → Program
  receiver : Value := .null

instance : Inhabited Function := ⟨{ body := fun _ => .done .null }⟩

/-- The name a function is shown under; one with bound leading arguments has none of its own. -/
def FunctionHead.shownName (f : FunctionHead) : String :=
  match f.binding with
  | .leading _ => "partial"
  | _ => f.name

/-- The positional arity of a function as its callers see it. -/
def FunctionHead.arity (f : FunctionHead) : Nat := f.signature.boundArity f.binding

end TraitFactory
