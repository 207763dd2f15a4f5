import ConstraintStreams.Error

/-!
# Configurations

How a session propagates changes, which checks it makes of itself, and how large it may grow.
-/

namespace ConstraintStreams

/-- The checks that a session makes of itself whenever it computes its score. -/
inductive CheckMode
  /-- None. -/
  | production
  /-- Its bookkeeping. -/
  | fastAssert
  /-- Its bookkeeping, and the score against one computed from scratch. -/
  | fullAssert
  deriving DecidableEq

/-- Any checks are made. -/
def CheckMode.isAsserted (mode : CheckMode) : Bool := mode ≠ .production

/-- When changes are propagated. -/
inductive Propagation
  /-- When the session is flushed. -/
  | batched
  /-- At the end of every change. -/
  | immediate
  deriving DecidableEq

/-- The configuration of a session. -/
structure Config where
  mode : CheckMode := .production
  propagation : Propagation := .batched
  limits : Limits := {}
  deriving DecidableEq

namespace Config

instance : Inhabited Config := ⟨{}⟩

/-- A configuration is valid when no limit is zero. -/
def validate (c : Config) : Except ConfigError Unit :=
  match c.limits.firstZero? with
  | some limit => .error (.invalid (limit ++ " must be positive"))
  | none => .ok ()

end Config

end ConstraintStreams
