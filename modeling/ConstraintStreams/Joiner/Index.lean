import ConstraintStreams.Table
import ConstraintStreams.Fact.Value

/-!
# Join keys and indexes

A join key is a list of properties, one for each equality that the join asks for. A property is a
value tagged with its type: values of different types never agree. An `Index` files items under
keys; it is a multimap without empty buckets, with `find` as its view.
-/

namespace ConstraintStreams

/-- A value that a join compares, tagged with its type. -/
inductive Property
  | value (v : Value)
  | int64 (n : Int64)
  | int32 (n : Int32)
  | uint8 (n : UInt8)
  | bool (b : Bool)
  | text (s : String)
  | optional (n : Option Int64)
  deriving DecidableEq

/-- The properties by which tuples of the two sides of a join find each other. -/
abbrev JoinKey := List Property

/-- Items filed under keys; no bucket is empty and no item stands twice in a bucket. The items are
counted as they come and go. -/
structure Index (κ α : Type) where
  buckets : Table κ (List α) := ∅
  /-- The number of filed items, over all keys. -/
  size : Nat := 0
  size_eq : size = buckets.values.flatten.length := by rfl

namespace Index

variable {κ α : Type} [DecidableEq κ] [DecidableEq α]

instance : EmptyCollection (Index κ α) := ⟨{ buckets := ∅ }⟩
instance : Inhabited (Index κ α) := ⟨∅⟩

/-- The items filed under a key. -/
def find (x : Index κ α) (k : κ) : List α := (x.buckets.get? k).getD []

/-- An item is filed under a key. -/
def contains (x : Index κ α) (k : κ) (a : α) : Bool := (x.find k).contains a

/-- Files an item under a key, once. -/
def insert (x : Index κ α) (k : κ) (a : α) : Index κ α :=
  if x.contains k a then x
  else
    { buckets := x.buckets.insert k (x.find k ++ [a])
      size := x.size + 1
      size_eq := by
        have h := x.buckets.length_values_insert k (x.find k ++ [a])
        rw [List.length_append] at h
        have := x.size_eq
        simp only [find, List.length_singleton] at h ⊢
        omega }

/-- Takes an item out from under a key, and the bucket with its last item. -/
def erase (x : Index κ α) (k : κ) (a : α) : Index κ α :=
  if h : x.contains k a then
    have hlen := List.length_erase_of_mem (List.contains_iff_mem.1 h)
    have hpos := List.length_pos_of_mem (List.contains_iff_mem.1 h)
    match hrest : (x.find k).erase a with
    | [] =>
      { buckets := x.buckets.erase k
        size := x.size - 1
        size_eq := by
          have hv := x.buckets.length_values_erase k
          have := x.size_eq
          rw [hrest, List.length_nil] at hlen
          simp only [find] at hlen hpos
          omega }
    | b :: bs =>
      { buckets := x.buckets.insert k (b :: bs)
        size := x.size - 1
        size_eq := by
          have hv := x.buckets.length_values_insert k (b :: bs)
          have := x.size_eq
          rw [hrest] at hlen
          simp only [find] at hlen hpos
          omega }
  else x

/-- Counting an item out never takes the count below zero. -/
theorem size_pos_of_contains {x : Index κ α} {k : κ} {a : α} (h : x.contains k a = true) :
    0 < x.size := by
  have hpos := List.length_pos_of_mem (List.contains_iff_mem.1 h)
  have hv := x.buckets.length_values_erase k
  have := x.size_eq
  simp only [find] at hpos
  omega

/-- The number of keys under which something is filed. -/
def keyCount (x : Index κ α) : Nat := x.buckets.size

def isEmpty (x : Index κ α) : Bool := x.size == 0

end Index

end ConstraintStreams
