import ConstraintStreams.Constraint.Basic

/-!
# What a match is charged

A match counts its weight, times its match weight, times the sign of the impact, level by level. The
charge is that product exactly, and it is refused where a level of the product is no word. There is one
exception: the match weight gets its sign first, and the least word has no opposite. A penalty of that
match weight is refused even where the product would have been a score.
-/

namespace ConstraintStreams

namespace Constraint

variable {kind : ScoreKind} {c : Constraint kind} {weight score : Score kind} {matchWeight signed : Int64}

/-- What a match counts at a level. -/
def product (c : Constraint kind) (weight : Score kind) (matchWeight : Int64) (i : Fin kind.depth) : Int :=
  weight.level i * matchWeight.toInt * c.impact.sign.toInt

/-- The match weight can be given the sign of the impact. -/
def Signs (c : Constraint kind) (matchWeight : Int64) : Prop :=
  c.impact = .reward ∨ matchWeight ≠ Int64.minValue

instance : Decidable (c.Signs matchWeight) := inferInstanceAs (Decidable (_ ∨ _))

/-- The report that a match counts for too much. -/
def refusal (c : Constraint kind) (weight : Score kind) (matchWeight : Int64) : Error :=
  .overflow (.impact c.id weight.text matchWeight)

/-- Only the least word cannot be given the sign of a penalty. -/
theorem signed_eq_none_iff : checkedMul matchWeight c.impact.sign = none ↔ ¬ c.Signs matchWeight := by
  have hbelow := Int64.le_toInt matchWeight
  have habove := Int64.toInt_lt matchWeight
  have hleast : matchWeight = Int64.minValue ↔ matchWeight.toInt = -0x8000000000000000 := Int64.toInt_inj.symm
  rw [checkedMul, narrow?_eq_none_iff, Signs, Fits]
  cases c.impact with
  | penalty =>
    have hsign : Impact.penalty.sign.toInt = -1 := rfl
    rw [hsign]
    simp [hleast]
    omega
  | reward =>
    have hsign : Impact.reward.sign.toInt = 1 := rfl
    rw [hsign]
    simp
    omega

/-- Once the match weight has its sign, the charge is the weight times what it is then. -/
theorem charge_of_signed (hsigned : checkedMul matchWeight c.impact.sign = some signed) :
    c.charge weight matchWeight = match Score.ofLevels? (c.product weight matchWeight) with
      | some score => .ok score
      | none => .error (c.refusal weight matchWeight) := by
  have hproduct : (fun i => weight.level i * signed.toInt) = c.product weight matchWeight := by
    funext i
    rw [narrow?_eq_some_iff.1 hsigned, product, Int.mul_assoc]
  rw [← hproduct]
  unfold charge
  rw [hsigned]
  rfl

theorem charge_of_not_signs (h : ¬ c.Signs matchWeight) :
    c.charge weight matchWeight = .error (c.refusal weight matchWeight) := by
  unfold charge
  rw [signed_eq_none_iff.2 h]
  rfl

theorem charge_of_signs (h : c.Signs matchWeight) :
    c.charge weight matchWeight = match Score.ofLevels? (c.product weight matchWeight) with
      | some score => .ok score
      | none => .error (c.refusal weight matchWeight) := by
  cases hsigned : checkedMul matchWeight c.impact.sign with
  | some signed => exact charge_of_signed hsigned
  | none => exact absurd h (signed_eq_none_iff.1 hsigned)

theorem charge_eq_ok_iff : c.charge weight matchWeight = .ok score ↔
    c.Signs matchWeight ∧ ∀ i, score.level i = c.product weight matchWeight i := by
  by_cases h : c.Signs matchWeight
  · rw [charge_of_signs h, ← Score.ofLevels?_eq_some_iff]
    split
    · next hlevels => simp [h, hlevels]
    · next hlevels => simp [hlevels]
  · simp [charge_of_not_signs h, h]

/-- What is charged is the product of weight, match weight and sign. -/
theorem level_charge (h : c.charge weight matchWeight = .ok score) (i : Fin kind.depth) :
    score.level i = weight.level i * matchWeight.toInt * c.impact.sign.toInt :=
  (charge_eq_ok_iff.1 h).2 i

theorem charge_eq_error_iff {e : Error} : c.charge weight matchWeight = .error e ↔
    e = c.refusal weight matchWeight ∧
      (¬ c.Signs matchWeight ∨ ∃ i, ¬ Fits (c.product weight matchWeight i)) := by
  by_cases h : c.Signs matchWeight
  · rw [charge_of_signs h, ← Score.ofLevels?_eq_none_iff]
    split
    · next hlevels => simp [h, hlevels]
    · next hlevels => simp [hlevels, eq_comm]
  · simp [charge_of_not_signs h, h, eq_comm]

/-- A match is charged the exact product if every level of it is a word, and is refused otherwise. A
penalty of the least match weight is always refused. -/
theorem charge_exact (c : Constraint kind) (weight : Score kind) (matchWeight : Int64) :
    (∀ score, c.charge weight matchWeight = .ok score ↔ c.Signs matchWeight ∧
      ∀ i, score.level i = weight.level i * matchWeight.toInt * c.impact.sign.toInt) ∧
    ((∃ score, c.charge weight matchWeight = .ok score) ↔ c.Signs matchWeight ∧
      ∀ i, Fits (weight.level i * matchWeight.toInt * c.impact.sign.toInt)) ∧
    ∀ e, c.charge weight matchWeight = .error e ↔
      e = .overflow (.impact c.id weight.text matchWeight) ∧ (¬ c.Signs matchWeight ∨
        ∃ i, ¬ Fits (weight.level i * matchWeight.toInt * c.impact.sign.toInt)) := by
  refine ⟨fun score => charge_eq_ok_iff, ?_, fun e => charge_eq_error_iff⟩
  constructor
  · rintro ⟨score, hscore⟩
    obtain ⟨hsigns, -⟩ := charge_eq_ok_iff.1 hscore
    exact ⟨hsigns, fun i => by rw [← level_charge hscore i]; exact fits_toInt _⟩
  · rintro ⟨hsigns, hfits⟩
    cases hcharge : c.charge weight matchWeight with
    | ok score => exact ⟨score, rfl⟩
    | error e =>
      obtain ⟨-, hunsigned | ⟨i, hi⟩⟩ := charge_eq_error_iff.1 hcharge
      · exact absurd hsigns hunsigned
      · exact absurd (hfits i) hi

/-- A penalty of the least match weight is refused although each of its products is a word. -/
theorem charge_refuses_least : ∃ c : Constraint .hardSoft, ∃ weight : Score .hardSoft,
    (∀ i, Fits (weight.level i * Int64.minValue.toInt * c.impact.sign.toInt)) ∧
      c.charge weight Int64.minValue =
        .error (.overflow (.impact c.id "-1hard/0soft" Int64.minValue)) :=
  ⟨{ id := ⟨defaultPackage, "debts"⟩, weight := .zero, impact := .penalty }, .hardSoft (-1) 0,
    by decide, rfl⟩

end Constraint

end ConstraintStreams
