import TraitFactory.Object.Interface

/-!
# Hosts

What evaluations need from their surroundings: to call something callable. An evaluation's laws
hold for every host; the host that programs run under is `Host.ofDepth`.
-/

namespace TraitFactory

/-- **The surroundings of an evaluation.** -/
structure Host where
  call : Value → List Value → Action Value

/-- Refuses every call: the host below the deepest level of nesting. -/
def Host.exhausted : Host := ⟨fun _ _ => Action.fail .tooDeep⟩

instance : Inhabited Host := ⟨Host.exhausted⟩

namespace World

/-- **The positional arity of a callable.** A class counts the parameters of its constructor. -/
def arity (w : World) : Value → Nat
  | .function f => ((w.function? f).map (·.arity)).getD Signature.unknownArity
  | .model m => if m.openFields then Signature.unknownArity else m.parameters.length
  | .method _ receiver name =>
    if (w.untold receiver).contains name then Signature.unknownArity
    else ((w.method? receiver name).map (·.arity)).getD 0
  | .enumeration _ => 2
  | _ => Signature.unknownArity

end World

end TraitFactory
