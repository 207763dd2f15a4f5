import ConstraintStreams.Proofs.Graph.Layout

/-!
# Searching for ancestors

What some leaves depend on can be looked for from the leaves on, with a stack of the nodes that are still
to be looked at. The nodes may be linked in any way: every round takes one node off the stack, and parents
are pushed for a node that was not found before only, so the search comes to an end. It looks up the parents
of every ancestor once, and finds what pruning keeps.
-/

namespace ConstraintStreams

namespace Blueprint

variable {kind : ScoreKind} {b : Blueprint kind} {nodes : Table NodeId (Node kind)}
  {found stack visits all : List NodeId} {p q leaf : NodeId}

/-- The parents of a node, if it exists. -/
def parentsOf (nodes : Table NodeId (Node kind)) (p : NodeId) : List NodeId :=
  ((nodes.get? p).map Node.parents).getD []

theorem mem_parentsOf : p ∈ parentsOf nodes q ↔ ∃ n, nodes.get? q = some n ∧ p ∈ n.parents := by
  unfold parentsOf
  cases nodes.get? q <;> simp

/-- A search that has found some nodes and is still to look at those on its stack, the top one first. It
pushes the parents of `visits`, in this order, and when its stack is empty it has found `all`. -/
inductive Search (nodes : Table NodeId (Node kind)) :
    List NodeId → List NodeId → List NodeId → List NodeId → Prop
  | done {found : List NodeId} : Search nodes found [] [] found
  | again {found stack visits all : List NodeId} {p : NodeId} : p ∈ found →
    Search nodes found stack visits all → Search nodes found (p :: stack) visits all
  | visit {found stack visits all : List NodeId} {p : NodeId} : p ∉ found →
    Search nodes (p :: found) ((parentsOf nodes p).reverse ++ stack) visits all →
    Search nodes found (p :: stack) (p :: visits) all

/-- The nodes that were not found yet. -/
def unfound (nodes : Table NodeId (Node kind)) (found : List NodeId) : List NodeId :=
  nodes.keys.filter (· ∉ found)

/-- A node that is found is one less to be found, unless there is no such node. -/
theorem unfound_cons (nodes : Table NodeId (Node kind)) (hp : p ∉ found) :
    (unfound nodes (p :: found)).length < (unfound nodes found).length ∨
      unfound nodes (p :: found) = unfound nodes found ∧ parentsOf nodes p = [] := by
  have hsplit : unfound nodes (p :: found) = (unfound nodes found).filter (· ≠ p) := by
    unfold unfound
    rw [List.filter_filter]
    refine List.filter_congr fun q _ => ?_
    rw [← Bool.decide_and, decide_eq_decide, List.mem_cons, not_or]
  by_cases hkey : p ∈ nodes.keys
  · refine .inl ?_
    have hmem : p ∈ unfound nodes found := List.mem_filter.2 ⟨hkey, decide_eq_true hp⟩
    rw [hsplit]
    exact List.length_filter_lt_length_iff_exists.2 ⟨p, hmem, by simp⟩
  · refine .inr ⟨?_, ?_⟩
    · rw [hsplit, List.filter_eq_self]
      intro q hq
      exact decide_eq_true fun he => hkey (he ▸ (List.mem_filter.1 hq).1)
    · unfold parentsOf
      rw [Table.get?_eq_none_iff.2 hkey]
      rfl

/-- Every search comes to an end: with each round there is a node less to be found, or one less to be
looked at and none more to be found. -/
theorem exists_search (nodes : Table NodeId (Node kind)) (found stack : List NodeId) :
    ∃ visits all, Search nodes found stack visits all := by
  match stack with
  | [] => exact ⟨[], found, .done⟩
  | p :: stack =>
    by_cases hp : p ∈ found
    · obtain ⟨visits, all, h⟩ := exists_search nodes found stack
      exact ⟨visits, all, .again hp h⟩
    · have hless := unfound_cons nodes hp
      obtain ⟨visits, all, h⟩ := exists_search nodes (p :: found) ((parentsOf nodes p).reverse ++ stack)
      exact ⟨p :: visits, all, .visit hp h⟩
termination_by ((unfound nodes found).length, stack.length)
decreasing_by
  · exact Prod.Lex.right _ (Nat.lt_succ_self _)
  · rcases hless with hlt | ⟨heq, hnone⟩
    · exact Prod.Lex.left _ _ hlt
    · rw [heq, hnone]
      exact Prod.Lex.right _ (Nat.lt_succ_self _)

theorem Ancestor.trans (h : Ancestor nodes leaf p) (h' : Ancestor nodes p q) : Ancestor nodes leaf q := by
  induction h' with
  | self => exact h
  | parent _ hn hp ih => exact .parent ih hn hp

namespace Search

/-- What is found in the end was found before or visited. -/
theorem all_eq (h : Search nodes found stack visits all) : all = visits.reverse ++ found := by
  induction h with
  | done => rfl
  | again _ _ ih => exact ih
  | visit _ _ ih => rw [ih, List.reverse_cons, List.append_assoc, List.singleton_append]

/-- No node is visited that was found before, and none twice. -/
theorem visits_fresh (h : Search nodes found stack visits all) :
    visits.Nodup ∧ ∀ p ∈ visits, p ∉ found := by
  induction h with
  | done => exact ⟨List.nodup_nil, nofun⟩
  | again _ _ ih => exact ih
  | visit hp _ ih =>
    obtain ⟨hnodup, hfresh⟩ := ih
    refine ⟨List.nodup_cons.2 ⟨fun hm => hfresh _ hm List.mem_cons_self, hnodup⟩, fun q hq => ?_⟩
    rcases List.mem_cons.1 hq with rfl | hq
    · exact hp
    · exact fun hm => hfresh q hq (List.mem_cons_of_mem _ hm)

/-- Only ancestors of what was on the stack are visited. -/
theorem ancestor (h : Search nodes found stack visits all) (hq : q ∈ visits) :
    ∃ leaf ∈ stack, Ancestor nodes leaf q := by
  induction h with
  | done => cases hq
  | again _ _ ih =>
    obtain ⟨leaf, hleaf, hancestor⟩ := ih hq
    exact ⟨leaf, List.mem_cons_of_mem _ hleaf, hancestor⟩
  | @visit _ stack _ _ p _ _ ih =>
    rcases List.mem_cons.1 hq with rfl | hq
    · exact ⟨q, List.mem_cons_self, .self⟩
    · obtain ⟨leaf, hleaf, hancestor⟩ := ih hq
      rcases List.mem_append.1 hleaf with hparent | hleaf
      · obtain ⟨n, hn, hmem⟩ := mem_parentsOf.1 (List.mem_reverse.1 hparent)
        exact ⟨p, List.mem_cons_self, (Ancestor.self.parent hn hmem).trans hancestor⟩
      · exact ⟨leaf, List.mem_cons_of_mem _ hleaf, hancestor⟩

/-- What was on the stack is found, and so are the parents of all that is found, if those of what was found
before were found or on the stack. -/
theorem closed (h : Search nodes found stack visits all)
    (hfound : ∀ q ∈ found, ∀ p ∈ parentsOf nodes q, p ∈ found ∨ p ∈ stack) :
    (∀ p ∈ stack, p ∈ all) ∧ ∀ q ∈ all, ∀ p ∈ parentsOf nodes q, p ∈ all := by
  induction h with
  | done => exact ⟨nofun, fun q hq p hp => (hfound q hq p hp).resolve_right List.not_mem_nil⟩
  | @again found stack visits all r hr hrest ih =>
    obtain ⟨hstack, hclosed⟩ := ih fun q hq p hp => by
      rcases hfound q hq p hp with hm | hm
      · exact .inl hm
      · rcases List.mem_cons.1 hm with rfl | hm
        · exact .inl hr
        · exact .inr hm
    refine ⟨fun p hp => ?_, hclosed⟩
    rcases List.mem_cons.1 hp with rfl | hp
    · rw [hrest.all_eq]
      exact List.mem_append_right _ hr
    · exact hstack p hp
  | @visit found stack visits all r hr hrest ih =>
    obtain ⟨hstack, hclosed⟩ := ih fun q hq p hp => by
      rcases List.mem_cons.1 hq with rfl | hq
      · exact .inr (List.mem_append_left _ (List.mem_reverse.2 hp))
      · rcases hfound q hq p hp with hm | hm
        · exact .inl (List.mem_cons_of_mem _ hm)
        · rcases List.mem_cons.1 hm with rfl | hm
          · exact .inl List.mem_cons_self
          · exact .inr (List.mem_append_right _ hm)
    refine ⟨fun p hp => ?_, hclosed⟩
    rcases List.mem_cons.1 hp with rfl | hp
    · rw [hrest.all_eq]
      exact List.mem_append_right _ List.mem_cons_self
    · exact hstack p (List.mem_append_right _ hp)

/-- A search that begins with leaves visits these and their ancestors. -/
theorem mem_visits (h : Search nodes [] stack visits all) :
    p ∈ visits ↔ ∃ leaf ∈ stack, Ancestor nodes leaf p := by
  constructor
  · exact h.ancestor
  · rintro ⟨leaf, hleaf, hancestor⟩
    obtain ⟨hstack, hclosed⟩ := h.closed nofun
    have hall : p ∈ all := by
      induction hancestor with
      | self => exact hstack leaf hleaf
      | parent _ hn hp ih => exact hclosed _ ih _ (mem_parentsOf.2 ⟨_, hn, hp⟩)
    rw [h.all_eq, List.append_nil] at hall
    exact List.mem_reverse.1 hall

end Search

/-- A search that begins with the constraints finds what pruning keeps. -/
theorem Sound.get?_prune_iff_search (h : b.Sound)
    (hsearch : Search b.catalog.nodes [] b.constraints.reverse visits all) :
    (∃ n, b.prune.nodes.get? p = some n) ↔ p ∈ all := by
  rw [hsearch.all_eq, List.append_nil, List.mem_reverse, hsearch.mem_visits]
  simp only [List.mem_reverse]
  rw [← h.mem_kept]
  constructor
  · rintro ⟨n, hn⟩
    exact (of_get?_prune hn).1
  · intro hkept
    obtain ⟨leaf, hleaf, hancestor⟩ := h.mem_kept.1 hkept
    obtain ⟨n, c, hn, -⟩ := h.constraints leaf hleaf
    obtain ⟨m, hm⟩ := h.ancestor_there ⟨n, hn⟩ hancestor
    exact ⟨_, get?_prune_of_kept hkept hm⟩

end Blueprint

end ConstraintStreams
