import ConstraintStreams.Config.Basic
import ConstraintStreams.Toml.Document

/-!
# Reading configurations

A configuration is written as a TOML document with the keys `environment_mode`, `propagation` and
`limits`. What is not written has its default, and other keys are ignored.
-/

namespace ConstraintStreams

/-- The mode with a name. -/
def CheckMode.ofName? : String → Option CheckMode
  | "production" => some .production
  | "fast_assert" => some .fastAssert
  | "full_assert" => some .fullAssert
  | _ => none

/-- The propagation with a name. -/
def Propagation.ofName? : String → Option Propagation
  | "batched" => some .batched
  | "immediate" => some .immediate
  | _ => none

namespace Config

/-- The name that a value gives: a string, or the only key of a table, if it has an empty value. -/
def nameIn : Toml → Option String
  | .string s => some s
  | .table _ [(name, .table _ [])] => some name
  | .table _ [(name, .array [])] => some name
  | _ => none

/-- The bound that a value gives. -/
def boundIn : Toml → Option Nat
  | .integer n => if 0 ≤ n.toInt then some n.toInt.toNat else none
  | _ => none

/-- What a value gives, if there is one, or else a default. -/
def valueOr {α : Type} (default : α) (read : Toml → Option α) : Option Toml → Option α
  | none => some default
  | some v => read v

/-- The limits whose bounds are given by values, where there are any. -/
def limitsOf (maxTuples maxFacts maxOperationsPerFlush : Option Toml) : Option Limits := do
  let default : Limits := {}
  pure {
    maxTuples := ← valueOr default.maxTuples boundIn maxTuples
    maxFacts := ← valueOr default.maxFacts boundIn maxFacts
    maxOperationsPerFlush := ← valueOr default.maxOperationsPerFlush boundIn maxOperationsPerFlush }

/-- The limits that a value gives: a table of named bounds, or an array of the first few in order.
A date names no bound. -/
def limitsIn : Toml → Option Limits
  | .table _ entries =>
    limitsOf (entries.lookup "max_tuples") (entries.lookup "max_facts")
      (entries.lookup "max_operations_per_flush")
  | .array items => limitsOf items[0]? items[1]? items[2]?
  | .date _ => some {}
  | _ => none

/-- The configuration with these entries. -/
def ofEntries? (entries : Toml.Entries) : Option Config := do
  let default : Config := {}
  let mode v := (nameIn v).bind CheckMode.ofName?
  let propagation v := (nameIn v).bind Propagation.ofName?
  pure {
    mode := ← valueOr default.mode mode (entries.lookup "environment_mode")
    propagation := ← valueOr default.propagation propagation (entries.lookup "propagation")
    limits := ← valueOr default.limits limitsIn (entries.lookup "limits") }

/-- Reads a configuration and validates it. -/
def ofText (text : String) : Except ConfigError Config :=
  match (Toml.entries? text).bind ofEntries? with
  | none => .error .malformed
  | some c => c.validate.map fun () => c

end Config

end ConstraintStreams
