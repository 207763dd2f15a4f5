import ConstraintStreams.Error
import ConstraintStreams.Fact.Basic
import ConstraintStreams.Table

/-!
# The order of hash maps

Hash maps and hash sets hand out what they hold in an order that nothing may rely on. An
`Arrangement` is such an order: it brings keys into some order, and loses and repeats none. A
session is given the arrangements of its maps as a `HashOrder`, and what is proved of it is proved
whatever they are.
-/

namespace ConstraintStreams

/-- An order in which keys are handed out. -/
structure Arrangement (κ : Type) where
  arrange : List κ → List κ
  perm (keys : List κ) : (arrange keys).Perm keys

namespace Arrangement

variable {κ : Type}

/-- Keys are handed out as they arrived. -/
def arrival : Arrangement κ := ⟨id, .refl⟩

instance : Inhabited (Arrangement κ) := ⟨arrival⟩

end Arrangement

namespace Table

variable {κ α : Type} [DecidableEq κ] {t : Table κ α} {a : Arrangement κ}

/-- The entries of a table, by an arrangement of its keys. -/
def inOrder (t : Table κ α) (a : Arrangement κ) : List (κ × α) :=
  (a.arrange t.keys).filterMap fun k => (t.get? k).map fun value => (k, value)

theorem inOrder_arrival (t : Table κ α) : t.inOrder .arrival = t.entries := by
  have hlookup {es : List (κ × α)} (h : ∀ e ∈ es, t.get? e.1 = some e.2) :
      ((es.map Prod.fst).filterMap fun k => (t.get? k).map fun value => (k, value)) = es := by
    induction es with
    | nil => rfl
    | cons e rest ih =>
      rw [List.forall_mem_cons] at h
      simp [h.1, ih h.2]
  exact hlookup fun e he => get?_eq_some_iff.2 he

theorem inOrder_perm (t : Table κ α) (a : Arrangement κ) : (t.inOrder a).Perm t.entries := by
  have h := (a.perm t.keys).filterMap fun k => (t.get? k).map fun value => (k, value)
  exact h.trans (.of_eq t.inOrder_arrival)

theorem nodup_keys_inOrder (t : Table κ α) (a : Arrangement κ) :
    ((t.inOrder a).map Prod.fst).Nodup :=
  ((t.inOrder_perm a).map Prod.fst).nodup_iff.2 t.keys_nodup

theorem mem_keys_inOrder {k : κ} : k ∈ (t.inOrder a).map Prod.fst ↔ k ∈ t.keys :=
  ((t.inOrder_perm a).map Prod.fst).mem_iff

@[simp] theorem inOrder_empty (a : Arrangement κ) : (∅ : Table κ α).inOrder a = [] :=
  (inOrder_perm ∅ a).eq_nil

theorem mem_inOrder {e : κ × α} : e ∈ t.inOrder a ↔ t.get? e.1 = some e.2 :=
  (t.inOrder_perm a).mem_iff.trans get?_eq_some_iff.symm

end Table

/-- The arrangements of the hash maps and hash sets of a session, by what their keys are. -/
structure HashOrder where
  tuples : Arrangement TupleId := .arrival
  groups : Arrangement (Option Fact) := .arrival
  facts : Arrangement Fact.Key := .arrival
  constraints : Arrangement ConstraintId := .arrival

end ConstraintStreams
