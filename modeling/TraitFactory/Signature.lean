/-!
# Signatures

The parameters of a function, how many positional arguments it takes, and which calls it
accepts. Hooks are called with as many arguments as their positional arity allows.
-/

namespace TraitFactory

/-- Kinds of parameters. A positional-only parameter makes those before it positional-only. -/
inductive Parameter where
  | positional
  | positionalOnly
  | defaulted
  | variadic
  | keyword
  | defaultedKeyword
  | keywords
  deriving DecidableEq, Repr

namespace Parameter

/-- Whether a positional argument can fill the parameter. -/
def isPositional : Parameter → Bool
  | .positional | .positionalOnly | .defaulted => true
  | _ => false

/-- Whether a call must fill the parameter by position. -/
def isRequired : Parameter → Bool
  | .positional | .positionalOnly => true
  | _ => false

end Parameter

/-- How arguments are bound before any call: not at all, the first few to nothing, or the first
one to the receiver of a method. -/
inductive Binding where
  | free
  | leading (count : Nat)
  | receiver
  deriving DecidableEq, Repr

abbrev Signature := List Parameter

namespace Signature

def positionals (s : Signature) : Nat := (s.filter (·.isPositional)).length

def required (s : Signature) : Nat := (s.filter (·.isRequired)).length

def isVariadic (s : Signature) : Bool := s.contains .variadic

def needsKeyword (s : Signature) : Bool := s.contains .keyword

/-- Whether a call with that many positional arguments and no keyword fits. -/
def accepts (s : Signature) (count : Nat) : Bool :=
  !s.needsKeyword && s.required ≤ count && (s.isVariadic || count ≤ s.positionals)

/-- The arity reported for a function that takes any number of arguments. -/
def unboundedArity : Nat := 65536

/-- The arity assumed where a signature cannot be inspected. -/
def unknownArity : Nat := 1

/-- **Positional parameters**, all of them counted, up to a variadic one. -/
def arity : Signature → Nat
  | [] => 0
  | .variadic :: _ => unboundedArity
  | p :: s =>
    let rest := arity s
    if rest = unboundedArity then unboundedArity else (if p.isPositional then 1 else 0) + rest

/-- Drops that many positional parameters from the front. -/
def dropPositionals : Nat → Signature → Signature
  | 0, s => s
  | _, [] => []
  | n + 1, p :: s => if p.isPositional then dropPositionals n s else p :: dropPositionals (n + 1) s

end Signature

/-- How many leading arguments a binding fills. -/
def Binding.count : Binding → Nat
  | .free => 0
  | .leading n => n
  | .receiver => 1

/-- The positional arity of a function once its leading arguments are bound. Binding more
arguments than fit leaves a signature that cannot be inspected. -/
def Signature.boundArity (s : Signature) (b : Binding) : Nat :=
  if b.count ≤ s.positionals || s.isVariadic then arity (s.dropPositionals b.count)
  else unknownArity

end TraitFactory
