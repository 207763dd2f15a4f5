import ConstraintStreams.Arithmetic

/-!
# Scores

A score has one, two or three levels, most significant first, each a 64-bit word. All operations
go through the exact integer levels: `Score.ofLevels?` gives the score with given exact levels, if
every level is a word, and `ofLevels?_eq_some_iff` is the law the other operations inherit. Scores
are ordered lexicographically.
-/

namespace ConstraintStreams

/-- The three kinds of score. -/
inductive ScoreKind
  | simple
  | hardSoft
  | hardMediumSoft
  deriving DecidableEq

namespace ScoreKind

/-- The number of levels. -/
def depth : ScoreKind → Nat
  | simple => 1
  | hardSoft => 2
  | hardMediumSoft => 3

/-- The name of each level. -/
def fields : ScoreKind → List String
  | simple => ["simple_value"]
  | hardSoft => ["hard_score", "soft_score"]
  | hardMediumSoft => ["hard_score", "medium_score", "soft_score"]

/-- What is written after the number of each level. -/
def units : ScoreKind → List String
  | simple => [""]
  | hardSoft => ["hard", "soft"]
  | hardMediumSoft => ["hard", "medium", "soft"]

/-- The name under which a score of the kind is described in full. -/
def typeName : ScoreKind → String
  | simple => "SimpleScore"
  | hardSoft => "HardSoftScore"
  | hardMediumSoft => "HardMediumSoftScore"

theorem depth_pos (kind : ScoreKind) : 0 < kind.depth := by cases kind <;> decide

end ScoreKind

/-- A score of a kind: a word for each level, most significant first. -/
structure Score (kind : ScoreKind) where
  levels : Vector Int64 kind.depth
  deriving DecidableEq

namespace Score

variable {kind : ScoreKind}

/-- The exact value of a level. -/
def level (s : Score kind) (i : Fin kind.depth) : Int := s.levels[i].toInt

@[ext] theorem ext {a b : Score kind} (h : ∀ i, a.level i = b.level i) : a = b := by
  obtain ⟨u⟩ := a
  obtain ⟨v⟩ := b
  congr 1
  apply Vector.ext
  intro i hi
  exact Int64.toInt_inj.1 (h ⟨i, hi⟩)

/-- The levels as a list, most significant first. -/
def toList (s : Score kind) : List Int64 := s.levels.toList

/-- The score with the given levels; missing levels are zero and surplus ones are ignored. -/
def ofList (ns : List Int64) : Score kind := ⟨Vector.ofFn fun i => ns[i.val]?.getD 0⟩

/-- The score whose levels are all zero. -/
def zero : Score kind := ⟨Vector.ofFn fun _ => 0⟩

instance : Inhabited (Score kind) := ⟨zero⟩

/-- The score with the given exact levels, if every one of them is a word. -/
def ofLevels? (f : Fin kind.depth → Int) : Option (Score kind) :=
  if ∀ i, Fits (f i) then some ⟨Vector.ofFn fun i => Int64.ofInt (f i)⟩ else none

theorem level_ofFn (f : Fin kind.depth → Int64) (i : Fin kind.depth) :
    level ⟨Vector.ofFn f⟩ i = (f i).toInt := by
  simp [level]

@[simp] theorem level_zero (i : Fin kind.depth) : (zero : Score kind).level i = 0 := by
  simp [zero, level]

theorem ofLevels?_eq_some_iff {f : Fin kind.depth → Int} {s : Score kind} :
    ofLevels? f = some s ↔ ∀ i, s.level i = f i := by
  unfold ofLevels?
  constructor
  · intro h
    split at h
    · next hf =>
      cases h
      intro i
      rw [level_ofFn, toInt_ofInt_of_fits (hf i)]
    · cases h
  · intro h
    have hf : ∀ i, Fits (f i) := fun i => h i ▸ fits_toInt _
    rw [if_pos hf]
    congr 1
    ext i
    rw [level_ofFn, toInt_ofInt_of_fits (hf i), h i]

theorem ofLevels?_eq_none_iff {f : Fin kind.depth → Int} :
    ofLevels? f = none ↔ ∃ i, ¬ Fits (f i) := by
  unfold ofLevels?
  split
  · next h => simpa using h
  · next h => simpa using h

/-- The sum level by level, `none` when a level leaves the range of words. -/
def checkedAdd (a b : Score kind) : Option (Score kind) :=
  ofLevels? fun i => a.level i + b.level i

/-- The difference level by level, `none` when a level leaves the range of words. -/
def checkedSub (a b : Score kind) : Option (Score kind) :=
  ofLevels? fun i => a.level i - b.level i

/-- Every level times a word, `none` when a level leaves the range of words. -/
def checkedScale (a : Score kind) (n : Int64) : Option (Score kind) :=
  ofLevels? fun i => a.level i * n.toInt

/-- The sum that traps on overflow. -/
def trappingAdd (a b : Score kind) : Except Trap (Score kind) :=
  orTrap .addition (a.checkedAdd b)

/-- The difference that traps on overflow. -/
def trappingSub (a b : Score kind) : Except Trap (Score kind) :=
  orTrap .subtraction (a.checkedSub b)

/-- The opposite score; traps on overflow. -/
def trappingNeg (a : Score kind) : Except Trap (Score kind) :=
  orTrap .negation (ofLevels? fun i => -a.level i)

/-- The multiple that traps on overflow. -/
def trappingScale (a : Score kind) (n : Int64) : Except Trap (Score kind) :=
  orTrap .multiplication (a.checkedScale n)

/-- The sum of the distances of all levels from zero, taken level by level; traps on overflow. -/
def trappingNorm (a : Score kind) : Except Trap Int64 :=
  a.toList.foldlM (fun sum n => do orTrap .addition (ConstraintStreams.checkedAdd sum (← trappingAbs n))) 0

/-- The most significant level that is not zero, or zero. -/
def priority (a : Score kind) : Int64 := (a.toList.find? (· != 0)).getD 0

/-- A score is feasible when its most significant level is not negative. -/
def isFeasible (a : Score kind) : Bool := 0 ≤ a.level ⟨0, kind.depth_pos⟩

def isZero (a : Score kind) : Bool := a = zero

/-- Scores compare by their levels, the most significant one first. -/
instance : LT (Score kind) := ⟨fun a b => a.toList < b.toList⟩

instance (a b : Score kind) : Decidable (a < b) := inferInstanceAs (Decidable (a.toList < b.toList))

instance : Ord (Score kind) := ⟨fun a b => compareOfLessAndEq a b⟩

/-- The score as text: each level with its unit, parted by slashes. -/
def text (a : Score kind) : String :=
  "/".intercalate (List.zipWith (fun n unit => toString n ++ unit) a.toList kind.units)

/-- The score with the names of its kind and levels. -/
def describe (a : Score kind) : String :=
  let levels := List.zipWith (fun field n => s!"{field}: {n}") kind.fields a.toList
  kind.typeName ++ " \x7b " ++ ", ".intercalate levels ++ " \x7d"

end Score

namespace Score

/-- A simple score of one word. -/
def simple (n : Int64) : Score .simple := ofList [n]

/-- A score of a hard and a soft level. -/
def hardSoft (hard soft : Int64) : Score .hardSoft := ofList [hard, soft]

/-- A score of a hard, a medium and a soft level. -/
def hardMediumSoft (hard medium soft : Int64) : Score .hardMediumSoft := ofList [hard, medium, soft]

end Score

end ConstraintStreams
