import ConstraintStreams.Proofs.Graph.Layout
import ConstraintStreams.Proofs.Network.Books
import ConstraintStreams.Proofs.Session.Showing

/-!
# What sessions keep of their ledgers

A ledger is opened with the weight its constraint was declared with, and after that it is posted to, or
another weight is put in force, which the session writes down. Whatever these three keep of a ledger
holds of every ledger of every session, whichever calls were made and however they ended.
-/

namespace ConstraintStreams

open ConstraintStreams.Action (Ends Ensures Keeps)

variable {kind : ScoreKind} {R : Option (Score kind) → Constraint kind → Ledger kind → Prop}

/-- What is kept of a ledger, given the weight that was set for its constraint. -/
structure Ledger.Retains (R : Option (Score kind) → Constraint kind → Ledger kind → Prop) : Prop where
  opened : ∀ c, R none c (.new c.weight)
  posted : ∀ set? c {posting : Posting kind}, posting.reweighs = false →
    Keeps (R set? c) (posting.post c)
  reweighed : ∀ set? c weight order l, R set? c l →
    Ends (Ledger.setWeight c weight order) l (fun _ => R (some weight) c) (· = l)

namespace Network

variable {g : Graph kind} {net : Network kind}

/-- Once all weights that were set are in force again, the ledgers are as if they had been set anew. -/
theorem applyWeights_books (hR : Ledger.Retains R) (hg : g.Built)
    (weights : Table ConstraintId (Score kind)) (order : Arrangement ConstraintId)
    (h : Books (R none) g net) :
    Ensures (fun _ => True) (Session.applyWeights g (weights.inOrder order)) net fun _ net' =>
      Books (fun c => R (weights.get? c.id) c) g net' := by
  -- A weight that is still to come counts as not set.
  refine (Ensures.forM (fun rest net' => (rest.map Prod.fst).Nodup ∧
    (∀ e ∈ rest, weights.get? e.1 = some e.2) ∧
    Books (fun c => R (if c.id ∈ rest.map Prod.fst then none else weights.get? c.id) c) g net') ?_
    ⟨weights.nodup_keys_inOrder order, fun e he => Table.mem_inOrder.1 he, ?_⟩).mono fun _ net' h' => ?_
  · rintro ⟨name, weight⟩ rest net₁ ⟨hnodup, hrest, hbooks⟩
    obtain ⟨hnew, hnodup'⟩ := List.nodup_cons.1 hnodup
    have hname : weights.get? name = some weight := hrest (name, weight) List.mem_cons_self
    rw [Action.ensures_bind, Action.ensures_lift]
    refine ⟨fun p hp => ?_, fun _ _ => trivial⟩
    rw [Graph.constraintNode_eq_ok] at hp
    obtain ⟨-, n, c, hn, hop, rfl⟩ := hg.wellFormed.names hp
    refine (Ends.ensures (setWeight_books hbooks hn hop (fun l order hl => ?_)
      fun {q nq c' l'} hq hnq hopq hl' => ?_)).mono
      fun _ net₂ h₂ => ⟨hnodup', fun e he => hrest e (List.mem_cons_of_mem _ he), h₂⟩
    · rw [if_neg hnew, hname]
      exact hR.reweighed _ c weight order l hl
    · have hother : c'.id ≠ c.id := hg.name_ne hp hnq hopq hq
      simpa only [List.map_cons, List.mem_cons, or_iff_right hother] using hl'
  · refine ⟨fun {p n c} hn hop => ?_⟩
    obtain ⟨l, hl, hRl⟩ := h.ledger hn hop
    refine ⟨l, hl, ?_⟩
    split
    · exact hRl
    · next hnew =>
      rw [Table.get?_eq_none_iff.2 (mt Table.mem_keys_inOrder.2 hnew)]
      exact hRl
  · exact h'.2.2

end Network

namespace Session

variable {g : Graph kind} {s : Session kind}

/-- Every constraint has a ledger, of which `R` holds given the weight that was set for it. -/
structure Booked (R : Option (Score kind) → Constraint kind → Ledger kind → Prop) (g : Graph kind)
    (s : Session kind) : Prop where
  graph : s.graph = g
  named : ∀ {name weight}, s.weights.get? name = some weight → ∃ p, g.names.get? name = some p
  books : Network.Books (fun c => R (s.weights.get? c.id) c) g s.network

namespace Booked

theorem poison (s : Session kind) (h : Booked R g s) : Booked R g { s with poisoned := true } :=
  ⟨h.graph, h.named, h.books⟩

theorem withFacts (s : Session kind) (facts : Table Fact.Key SourceFact) (h : Booked R g s) :
    Booked R g { s with facts } := ⟨h.graph, h.named, h.books⟩

theorem keeps_onAgenda {α : Type} (x : Action Agenda α) :
    Keeps (Booked R g) (onNetwork (Network.onAgenda x) : SessionAction kind α) := fun _ h =>
  Action.ends_within.2 ((Network.Books.keeps_onAgenda x _ h.books).mono
    (fun _ _ h' => ⟨h.graph, h.named, h'⟩) fun _ h' => ⟨h.graph, h.named, h'⟩)

theorem keepsSources : KeepsSources (Booked R g) where
  insert _ _ := keeps_onAgenda _
  update _ _ := keeps_onAgenda _
  retract _ := keeps_onAgenda _

variable (hR : Ledger.Retains R)

include hR

theorem keeps_flush : Keeps (Booked R g) (flush : SessionAction kind Nat) := by
  refine .bind keeps_checkUsable fun _ => .get_bind fun s h => keeps_guarded poison fun s' h' => ?_
  rw [h.graph]
  exact Action.ends_within.2
    ((Network.keepsBooks_flush (fun c _ hp => hR.posted (s'.weights.get? c.id) c hp) g s'.network
      h'.books).mono (fun _ _ hnet => ⟨h'.graph, h'.named, hnet⟩) fun _ hnet => ⟨h'.graph, h'.named, hnet⟩)

theorem opened (config : Config) (order : TupleStore → HashOrder) : Booked R g (new g config order) :=
  ⟨rfl, fun h => (nomatch h), Network.books_reset hR.opened g _⟩

variable (hg : g.Built)

include hg

theorem keeps_clear : Keeps (Booked R g) clear := by
  intro s h
  cases hp : s.poisoned with
  | true =>
    have hrefused : Call.clear.run s = .error .sessionPoisoned s := run_of_poisoned hp .clear
    unfold Ends
    rw [show clear s = _ from hrefused]
    exact h
  | false =>
    have hsucceeds := clear_succeeds hg.wellFormed h.graph h.named hp
    refine Ensures.ends (E := fun _ => True) ?_ fun e s' _ hrun => (hsucceeds.of_error hrun).elim
    unfold clear
    rw [Action.ensures_bind]
    refine checkUsable_ends.ensures.mono fun _ s' hs' => ?_
    subst hs'
    rw [Action.ensures_bind, Action.ensures_modify, Action.ensures_bind, Action.ensures_get, h.graph]
    refine ensures_guarded (Action.ensures_within.2
      ((Network.applyWeights_books hR hg s'.weights _ (Network.books_reset hR.opened g s'.network)).mono
        fun _ net hnet => ?_))
    exact ⟨rfl, h.named, hnet⟩

theorem keeps_setWeight (name : ConstraintId) (weight : Score kind) :
    Keeps (Booked R g) (setWeight name weight) := by
  intro s h
  unfold setWeight
  rw [Action.ends_bind]
  refine checkUsable_ends.mono (fun _ s' hs' => ?_) (by rintro _ rfl; exact h)
  subst hs'
  rw [Action.ends_bind, Action.ends_get, Action.ends_bind, Action.ends_lift, h.graph]
  refine ⟨fun p hp => ?_, fun _ _ => h⟩
  rw [Graph.constraintNode_eq_ok] at hp
  obtain ⟨-, n, c, hn, hop, rfl⟩ := hg.wellFormed.names hp
  split
  · exact h
  · have hbooks : Ends (Network.setWeight g p weight) s'.network
        (fun _ => Network.Books (fun c' => R ((s'.weights.insert c.id weight).get? c'.id) c') g)
        (Network.Books (fun c' => R (s'.weights.get? c'.id) c') g) := by
      refine Network.setWeight_books h.books hn hop (fun l order hl => ?_)
        fun {q nq c' l'} hq hnq hopq hl' => ?_
      · rw [Table.get?_insert, if_pos rfl]
        exact hR.reweighed _ c weight order l hl
      · rwa [Table.get?_insert, if_neg (hg.name_ne hp hnq hopq hq).symm]
    rw [Action.ends_bind]
    refine Action.ends_within.2 (hbooks.mono (fun _ net hnet => ?_) fun net hnet => ⟨h.graph, h.named, hnet⟩)
    rw [Action.ends_modify]
    refine ⟨h.graph, fun {other w} hw => ?_, hnet⟩
    rw [Table.get?_insert] at hw
    split at hw
    · next he => exact ⟨p, he ▸ hp⟩
    · exact h.named hw

/-- Whichever way a call ends, the ledgers are kept. -/
theorem keeps_run (c : Call kind) : Keeps (Booked R g) c.run := by
  have hflush : Keeps (Booked R g) (flush : SessionAction kind Nat) := keeps_flush hR
  cases c with
  | insert | update | retract => exact keeps_sourcesChanging keepsSources withFacts poison hflush rfl
  | clear => exact keeps_clear hR hg
  | setWeight name weight => exact keeps_setWeight hR hg name weight
  | _ => exact keeps_computing poison hflush rfl

/-- Whatever calls are made, the ledgers are kept. -/
theorem replay (h : Booked R g s) (calls : List (Call kind)) : Booked R g (Call.replay calls s).2 :=
  keeps_replay (keeps_run hR hg) h calls

end Booked

end Session

end ConstraintStreams
