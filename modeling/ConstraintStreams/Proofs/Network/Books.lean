import ConstraintStreams.Proofs.Constraint.Posting
import ConstraintStreams.Proofs.Network.Quiet

/-!
# The ledgers of a network

The only things that ever happen to the ledgers of a network are postings. So what every posting keeps
of a ledger, whichever way it ends, a flush keeps of all ledgers.
-/

namespace ConstraintStreams

open ConstraintStreams.Action (Ends Keeps KeepsUnless)

namespace Network

variable {kind : ScoreKind} {g : Graph kind} {net : Network kind} {p q : NodeId} {n : Node kind}
  {c : Constraint kind} {l : Ledger kind} {R R' : Constraint kind → Ledger kind → Prop}
  {F : Error → Constraint kind → Ledger kind → Prop}

/-- Every constraint has a ledger, of which `R` holds. -/
structure Books (R : Constraint kind → Ledger kind → Prop) (g : Graph kind) (net : Network kind) :
    Prop where
  ledger : ∀ {p n c}, g.nodes.get? p = some n → n.operator = .constraint c →
    ∃ l, net.ledger? p = some l ∧ R c l

theorem ledger?_insert (net : Network kind) (p q : NodeId) (m : NodeMemory kind) :
    ({ net with memories := net.memories.insert p m } : Network kind).ledger? q =
      if p = q then m.ledger? else net.ledger? q := by
  unfold ledger?
  show ((net.memories.insert p m).get? q).bind _ = _
  rw [Table.get?_insert]
  split <;> rfl

namespace Books

theorem imp (h : Books R g net) (hR : ∀ c l, R c l → R' c l) : Books R' g net where
  ledger hn hop := by
    obtain ⟨l, hl, hRl⟩ := h.ledger hn hop
    exact ⟨l, hl, hR _ l hRl⟩

/-- Books are a matter of the memories. -/
theorem of_memories (h : Books R g net) {net' : Network kind} (hsame : net'.memories = net.memories) :
    Books R g net' := by
  refine ⟨fun hn hop => ?_⟩
  obtain ⟨l, hl, hR⟩ := h.ledger hn hop
  exact ⟨l, by rw [← hl]; unfold ledger?; rw [hsame], hR⟩

/-- The memory of another node is replaced. -/
theorem insert_other (h : Books R g net) (hn : g.nodes.get? p = some n)
    (hop : n.operator.constraint? = none) (m : NodeMemory kind) :
    Books R g { net with memories := net.memories.insert p m } := by
  refine ⟨fun {q nq c} hnq hopq => ?_⟩
  obtain ⟨l, hl, hR⟩ := h.ledger hnq hopq
  refine ⟨l, (ledger?_insert net p q m).trans ?_, hR⟩
  rw [if_neg, hl]
  rintro rfl
  cases hn.symm.trans hnq
  rw [hopq] at hop
  cases hop

/-- The ledger of a constraint is replaced, and those of the others may be seen in another light. -/
theorem replace (h : Books R g net) (hn : g.nodes.get? p = some n) (hop : n.operator = .constraint c)
    (hl : R' c l) (hothers : ∀ {q nq c' l'}, p ≠ q → g.nodes.get? q = some nq →
      nq.operator = .constraint c' → R c' l' → R' c' l') :
    Books R' g { net with memories := net.memories.insert p (.constraint l) } := by
  refine ⟨fun {q nq c'} hnq hopq => ?_⟩
  by_cases hq : p = q
  · subst hq
    cases hn.symm.trans hnq
    cases hop.symm.trans hopq
    exact ⟨l, (ledger?_insert net p p _).trans (if_pos rfl), hl⟩
  · obtain ⟨l', hl', hR⟩ := h.ledger hnq hopq
    exact ⟨l', (ledger?_insert net p q _).trans ((if_neg hq).trans hl'), hothers hq hnq hopq hR⟩

/-- The ledger of a constraint is replaced. -/
theorem insert (h : Books R g net) (hn : g.nodes.get? p = some n) (hop : n.operator = .constraint c)
    (hl : R c l) : Books R g { net with memories := net.memories.insert p (.constraint l) } :=
  h.replace hn hop hl fun _ _ _ => id

theorem keeps_onAgenda {α : Type} (x : Action Agenda α) :
    Keeps (Books R g) (onAgenda x : NetworkAction kind α) := by
  intro net h
  refine Action.ends_within.2 ?_
  unfold Ends
  split
  · exact h.of_memories rfl
  · exact h.of_memories rfl

theorem keeps_onMemory {μ α : Type} (hn : g.nodes.get? p = some n)
    (hop : n.operator.constraint? = none) (m : μ) (wrap : μ → NodeMemory kind) (x : Work μ α) :
    Keeps (Books R g) (onMemory p m wrap x) := by
  intro net h
  refine Action.ends_within.2 ?_
  unfold Ends
  split
  · exact (h.insert_other hn hop _).of_memories rfl
  · exact (h.insert_other hn hop _).of_memories rfl

end Books

/-! ## Through a flush -/

/-- What entering, bringing up to date and striking out keep of a ledger, a signal keeps. -/
theorem keepsUnless_signalConstraint
    (hR : ∀ posting : Posting kind, posting.reweighs = false →
      KeepsUnless (fun e => F e c) (R c) (posting.post c)) (id : TupleId) (signal : Signal) :
    KeepsUnless (fun e => Work.Recalls (F e c)) (Work.Recalls (R c)) (signalConstraint c id signal) := by
  have looking : Keeps (Work.Recalls (R c)) (Work.facts id : Work (Ledger kind) _) :=
    .get_bind fun _ _ => .lift _
  have ledger (posting : Posting kind) (hposting : posting.reweighs = false) :
      KeepsUnless (fun e => Work.Recalls (F e c)) (Work.Recalls (R c)) (Work.onMemory (posting.post c)) :=
    fun w h =>
    Action.endsUnless_within.2 (hR posting hposting w.memory h)
  cases signal with
  | insert => exact .bind (.of_keeps looking) fun facts => ledger (.insert id facts) rfl
  | update => exact .bind (.of_keeps looking) fun facts => ledger (.update id facts) rfl
  | retract => exact ledger (.retract id) rfl

section Flush

/-- The books of a network in which a call has failed with the given error. -/
abbrev FailedBooks (F : Error → Constraint kind → Ledger kind → Prop)
    (R : Constraint kind → Ledger kind → Prop) (g : Graph kind) (e : Error) : Network kind → Prop :=
  Books (fun c l => F e c l ∨ R c l) g

variable (hR : ∀ (c : Constraint kind) (posting : Posting kind), posting.reweighs = false →
  KeepsUnless (fun e => F e c) (R c) (posting.post c))

include hR

theorem keepsBooks_act (hn : g.nodes.get? p = some n) (side : Side) (id : TupleId) (signal : Signal) :
    KeepsUnless (FailedBooks F R g) (Books R g) (act p n side id signal) := by
  intro net h
  unfold act
  refine ((memoryOf_ends p net).mono (fun _ _ h => h) fun _ hsame => hsame ▸ h).bindUnless ?_
  rintro m net ⟨rfl, hm⟩
  have elsewhere {μ : Type} {m : μ} {wrap : μ → NodeMemory kind} {x : Work μ Unit}
      (hop : n.operator.constraint? = none) : KeepsUnless (FailedBooks F R g) (Books R g)
        (do onMemory p m wrap x; pure (none : Option Signal)) :=
    .of_keeps (.bind (Books.keeps_onMemory hn hop _ _ _) fun _ => .pure _)
  split
  case h_1 hop =>
    exact KeepsUnless.of_keeps (Books.keeps_onMemory hn (by rw [hop]; rfl) _ _ _) net h
  case h_9 c l hop =>
    obtain ⟨l', hl', hRl⟩ := h.ledger hn hop
    have hl : net.ledger? p = some l := by simp [ledger?, hm, NodeMemory.ledger?]
    cases hl.symm.trans hl'
    refine Action.EndsUnless.bind (Action.endsUnless_within.2 ?_) fun _ _ h' => h'
    exact (keepsUnless_signalConstraint (hR c) id signal ⟨l, net.agenda⟩ hRl).mono
      (fun e w hw => (h.replace hn hop (.inl hw) fun _ _ _ => .inr).of_memories rfl)
      fun w hw => (h.insert hn hop hw).of_memories rfl
  case h_10 => exact .inr h
  all_goals next hop => exact elsewhere (by rw [hop]; rfl) net h

omit hR in
theorem keepsBooks_refresh (g : Graph kind) (p : NodeId) : Keeps (Books R g) (refresh g p) := by
  unfold refresh
  refine .lift_bind fun n hn => .get_bind fun net _ => ?_
  split
  · next hop _ =>
    exact Books.keeps_onMemory (Graph.node_eq_ok.1 hn) (by rw [hop]; rfl) _ _ _
  · next hop _ =>
    exact Books.keeps_onMemory (Graph.node_eq_ok.1 hn) (by rw [hop]; rfl) _ _ _
  · exact .pure _

/-- What postings keep of a ledger, a flush keeps of all. -/
theorem withstands_books (g : Graph kind) : Withstands g (FailedBooks F R g) (Books R g) where
  count _ h := h.of_memories rfl
  act hn _ _ _ := keepsBooks_act hR hn _ _ _
  refresh p := .of_keeps (keepsBooks_refresh g p)
  settle _ := Books.keeps_onAgenda _
  release _ := Books.keeps_onAgenda _
  takeQueue _ := Books.keeps_onAgenda _

end Flush

/-- What postings keep of a ledger whichever way they end, a flush keeps of all. -/
theorem keepsBooks_flush (hR : ∀ (c : Constraint kind) (posting : Posting kind), posting.reweighs = false →
    Keeps (R c) (posting.post c)) (g : Graph kind) : Keeps (Books R g) (flush g) := by
  refine (withstands_books (F := fun _ _ _ => False) (fun c posting hp => .of_keeps (hR c posting hp))
    g).flush.keeps fun _ net h => h.imp fun _ _ => ?_
  rintro (hnever | hl)
  · exact hnever.elim
  · exact hl

/-! ## Other changes -/

/-- A network that starts over has new ledgers. -/
theorem books_reset (hR : ∀ c, R c (.new c.weight)) (g : Graph kind) (net : Network kind) :
    Books R g (reset g net) where
  ledger {p n c} hn hop := by
    refine ⟨.new c.weight, ?_, hR c⟩
    unfold ledger?
    rw [reset_memory hn, hop]
    rfl

/-- What putting another weight in force makes of a ledger, it makes of the books. -/
theorem setWeight_books {weight : Score kind} (h : Books R g net) (hn : g.nodes.get? p = some n)
    (hop : n.operator = .constraint c)
    (hset : ∀ l order, R c l → Ends (Ledger.setWeight c weight order) l (fun _ => R' c) (· = l))
    (hothers : ∀ {q nq c' l'}, p ≠ q → g.nodes.get? q = some nq → nq.operator = .constraint c' →
      R c' l' → R' c' l') :
    Ends (setWeight g p weight) net (fun _ => Books R' g) (Books R g) := by
  obtain ⟨l, hl, hRl⟩ := h.ledger hn hop
  unfold setWeight
  rw [Action.ends_bind, Action.ends_lift]
  refine ⟨fun c' hc' => ?_, fun _ _ => h⟩
  obtain ⟨n', hn', hop'⟩ := Graph.constraintAt_eq_ok.1 hc'
  cases hn.symm.trans hn'
  cases hop.symm.trans hop'
  rw [Action.ends_bind, Action.ends_get, hl]
  refine Action.ends_within.2 ((hset l _ hRl).mono (fun _ l' hl' => h.replace hn hop hl' hothers) ?_)
  rintro _ rfl
  exact h.insert hn hop hRl

theorem keepsBooks_setWeight {weight : Score kind}
    (hset : ∀ c l order, R c l → Ends (Ledger.setWeight c weight order) l (fun _ => R c) (· = l))
    (p : NodeId) :
    Keeps (Books R g) (setWeight g p weight) := by
  intro net h
  cases hc : g.constraintAt p with
  | ok c =>
    obtain ⟨n, hn, hop⟩ := Graph.constraintAt_eq_ok.1 hc
    exact setWeight_books h hn hop (hset c) fun _ _ _ => id
  | error e =>
    unfold setWeight
    rw [hc]
    exact h

end Network

end ConstraintStreams
