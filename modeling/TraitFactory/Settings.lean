/-!
# Settings

What a runner can be told: where synthetic ids start, whether associations follow the strategy
of the run they belong to, whether plans are cached, and the level to log at.
-/

namespace TraitFactory

structure Settings where
  stubIdStart : Int := 1000
  useParentStrategy : Bool := true
  cachePlans : Bool := true
  logLevel : String := "WARNING"
  deriving DecidableEq, Repr

instance : Inhabited Settings := ⟨{}⟩

end TraitFactory
