import ConstraintStreams.Tuple.Basic

/-!
# The data of facts

What functions of the user can tell of a fact: everything but the versions of its entities. Two
sessions that went through different calls number versions differently, so it is the data of their
tuples that can be compared. A *value* is a fact that stands for all of its data.
-/

namespace ConstraintStreams

namespace Fact

mutual
/-- A fact without the versions of its entities. -/
def data : Fact → Fact
  | entity e => entity { e with version := .fresh }
  | scalar s => scalar s
  | list items => list (dataItems items)
/-- Facts without the versions of their entities. -/
def dataItems : List Fact → List Fact
  | [] => []
  | a :: as => data a :: dataItems as
end

theorem dataItems_eq_map (as : List Fact) : dataItems as = as.map data := by
  induction as with
  | nil => rfl
  | cons a as ih => simp [dataItems, ih]

mutual
@[simp] theorem data_data : ∀ a : Fact, a.data.data = a.data
  | entity e => rfl
  | scalar s => rfl
  | list items => by simp only [data, dataItems_dataItems items]
theorem dataItems_dataItems : ∀ as : List Fact, dataItems (dataItems as) = dataItems as
  | [] => rfl
  | a :: as => by simp only [dataItems, data_data a, dataItems_dataItems as]
end

mutual
/-- What a fact stands for is part of its data. -/
@[simp] theorem identity_data : ∀ a : Fact, a.data.identity = a.identity
  | entity e => rfl
  | scalar s => rfl
  | list items => by simp only [data, identity, identities_dataItems items]
theorem identities_dataItems : ∀ as : List Fact, identities (dataItems as) = identities as
  | [] => rfl
  | a :: as => by simp only [dataItems, identities, identity_data a, identities_dataItems as]
end

/-- Versions of one entity are of one type. -/
@[simp] theorem type_data (a : Fact) : a.data.type = a.type := by cases a <;> rfl

mutual
/-- Numbering changes versions only. -/
@[simp] theorem data_numberFrom : ∀ (n : Nat) (a : Fact), (a.numberFrom n).1.data = a.data
  | n, entity e => by
    unfold numberFrom
    split <;> rfl
  | n, scalar s => rfl
  | n, list items => by
    simp only [numberFrom, data]
    rw [dataItems_numberItemsFrom n items]
theorem dataItems_numberItemsFrom : ∀ (n : Nat) (as : List Fact),
    dataItems (numberItemsFrom n as).1 = dataItems as
  | n, [] => rfl
  | n, a :: as => by
    simp only [numberItemsFrom, dataItems]
    rw [data_numberFrom n a, dataItems_numberItemsFrom _ as]
end

/-- A plain value has all data but the version. -/
@[simp] theorem data_unboxFrom (n : Nat) (a : Fact) : (a.unboxFrom n).1.data = a.data := by
  cases a with
  | entity e => rfl
  | _ => exact data_numberFrom n _

mutual
theorem identity_identity : ∀ a : Fact, a.identity.identity = a.identity
  | entity e => rfl
  | scalar s => rfl
  | list items => by simp only [identity, identities_identities items]
theorem identities_identities : ∀ as : List Fact, identities (identities as) = identities as
  | [] => rfl
  | a :: as => by simp only [identities, identity_identity a, identities_identities as]
end

mutual
theorem data_identity : ∀ a : Fact, a.identity.data = a.identity
  | entity e => rfl
  | scalar s => rfl
  | list items => by simp only [identity, data, dataItems_identities items]
theorem dataItems_identities : ∀ as : List Fact, dataItems (identities as) = identities as
  | [] => rfl
  | a :: as => by simp only [identities, dataItems, data_identity a, dataItems_identities as]
end

/-- A fact with the data of everything that stands for the same. -/
def IsValue (a : Fact) : Prop := ∀ b : Fact, a.Same b → b.data = a.data

theorem IsValue.data_eq_identity {a : Fact} (h : a.IsValue) : a.data = a.identity := by
  rw [← h a.identity (identity_identity a).symm, data_identity]

/-- The fact is a scalar. -/
def isScalar : Fact → Bool
  | scalar _ => true
  | _ => false

/-- A scalar is a value. -/
theorem isValue_scalar (s : Scalar) : (scalar s).IsValue := by
  intro b hb
  cases b with
  | scalar s' => exact hb.symm
  | entity e => cases hb
  | list items => cases hb

end Fact

namespace Facts

/-- The data of each fact. -/
def data (facts : Facts) : Facts := facts.map Fact.data

@[simp] theorem data_data (facts : Facts) : data (data facts) = data facts := by
  simp [data, Function.comp_def]

@[simp] theorem data_nil : data [] = [] := rfl

@[simp] theorem data_append (a b : Facts) : data (a ++ b) = data a ++ data b := List.map_append

theorem data_numberItemsFrom (n : Nat) (facts : Facts) :
    data (Fact.numberItemsFrom n facts).1 = data facts := by
  simpa [data, Fact.dataItems_eq_map] using Fact.dataItems_numberItemsFrom n facts

theorem length_numberItemsFrom (n : Nat) (facts : Facts) :
    (Fact.numberItemsFrom n facts).1.length = facts.length := by
  simpa [data] using congrArg List.length (data_numberItemsFrom n facts)

theorem data_identity (facts : Facts) : identity (data facts) = identity facts := by
  simp [data, identity, Function.comp_def]

/-- All of the facts are values. -/
def AreValues (facts : Facts) : Prop := ∀ a ∈ facts, a.IsValue

theorem AreValues.data_eq {a b : Facts} (ha : AreValues a) (h : Same a b) : data b = data a := by
  induction a generalizing b with
  | nil =>
    cases b with
    | nil => rfl
    | cons => cases h
  | cons x xs ih =>
    cases b with
    | nil => cases h
    | cons y ys =>
      obtain ⟨hxy, hrest⟩ := List.cons.inj h
      show y.data :: data ys = x.data :: data xs
      rw [ha x List.mem_cons_self y hxy, ih (fun z hz => ha z (List.mem_cons_of_mem x hz)) hrest]

end Facts

/-- Given the same data, a function answers the same, as far as `view` can tell. -/
def ReadsData {β γ : Type} (view : β → γ) (f : Facts → Except Error β) : Prop :=
  ∀ facts, view <$> f facts = view <$> f (Facts.data facts)

namespace ReadsData

variable {β γ : Type} {view : β → γ} {f : Facts → Except Error β} {facts : Facts} {b : β}

/-- An answer on the data alone is that on the facts. -/
theorem of_ok (h : ReadsData view f) (hb : f facts = .ok b) :
    ∃ b', f (Facts.data facts) = .ok b' ∧ view b' = view b := by
  have hdata := h facts
  rw [hb] at hdata
  cases hb' : f (Facts.data facts) with
  | ok b' => rw [hb'] at hdata; exact ⟨b', rfl, (Except.ok.inj hdata).symm⟩
  | error e => rw [hb'] at hdata; cases hdata

/-- Where answers are told apart, that on the data is the same. -/
theorem eq (h : ReadsData id f) (facts : Facts) : f (Facts.data facts) = f facts := by
  simpa using (h facts).symm

end ReadsData

end ConstraintStreams
