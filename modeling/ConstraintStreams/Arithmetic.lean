/-!
# Exact arithmetic on 64-bit words

Scores, weights and running sums are signed 64-bit words. Every operation here is computed
exactly on integers first; the result is a word when it fits and a reported failure otherwise,
so no total ever wraps around silently. `narrow?_eq_some_iff` says which integers have a word.
-/

namespace ConstraintStreams

/-- The integer is in the range of signed 64-bit words. -/
def Fits (n : Int) : Prop := -0x8000000000000000 ≤ n ∧ n < 0x8000000000000000

instance : DecidablePred Fits := fun n =>
  inferInstanceAs (Decidable (-0x8000000000000000 ≤ n ∧ n < 0x8000000000000000))

theorem fits_toInt (w : Int64) : Fits w.toInt :=
  ⟨Int64.le_toInt w, Int64.toInt_lt w⟩

/-- The word of an integer, if it has one. -/
def narrow? (n : Int) : Option Int64 :=
  if Fits n then some (Int64.ofInt n) else none

theorem toInt_ofInt_of_fits {n : Int} (h : Fits n) : (Int64.ofInt n).toInt = n :=
  Int64.toInt_ofInt_of_le h.1 h.2

theorem narrow?_eq_some_iff {n : Int} {w : Int64} : narrow? n = some w ↔ w.toInt = n := by
  unfold narrow?
  constructor
  · intro h
    split at h
    · next hn => cases h; exact toInt_ofInt_of_fits hn
    · cases h
  · rintro rfl
    rw [if_pos (fits_toInt w), Int64.ofInt_toInt]

theorem narrow?_eq_none_iff {n : Int} : narrow? n = none ↔ ¬ Fits n := by
  unfold narrow?; split <;> simp_all

/-- Addition that answers `none` when the exact sum is not a word. -/
def checkedAdd (a b : Int64) : Option Int64 := narrow? (a.toInt + b.toInt)

/-- Subtraction that answers `none` when the exact difference is not a word. -/
def checkedSub (a b : Int64) : Option Int64 := narrow? (a.toInt - b.toInt)

/-- Multiplication that answers `none` when the exact product is not a word. -/
def checkedMul (a b : Int64) : Option Int64 := narrow? (a.toInt * b.toInt)

/-- Negation that answers `none` for the one word without an opposite. -/
def checkedNeg (a : Int64) : Option Int64 := narrow? (-a.toInt)

/-- A computation that stops the program instead of reporting an error. -/
inductive Trap
  /-- A sum left the range of words. -/
  | addition
  /-- A difference left the range of words. -/
  | subtraction
  /-- A product left the range of words. -/
  | multiplication
  /-- The opposite of the least word was asked for. -/
  | negation
  /-- A session that should be empty still holds this many tuples. -/
  | leak (tuples : Nat)
  deriving DecidableEq

/-- The text shown when a trap stops the program. -/
def Trap.message : Trap → String
  | .addition => "attempt to add with overflow"
  | .subtraction => "attempt to subtract with overflow"
  | .multiplication => "attempt to multiply with overflow"
  | .negation => "attempt to negate with overflow"
  | .leak tuples => s!"Tuple leak detected: {tuples} tuples still alive"

/-- A checked result whose absence is the given trap. -/
def orTrap (trap : Trap) : Option α → Except Trap α
  | some a => .ok a
  | none => .error trap

/-- The distance of a word from zero; the least word has none. -/
def trappingAbs (a : Int64) : Except Trap Int64 :=
  if a.toInt < 0 then orTrap .negation (checkedNeg a) else .ok a

end ConstraintStreams
