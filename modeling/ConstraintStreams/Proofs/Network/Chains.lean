import ConstraintStreams.Proofs.Network.Relaying

/-!
# Chains of filters

Filters in a row below a node that has tuples of its own. Each lets pass some of what the one before it
does, so the memory of the last is the memory that one filter with the conjunction of the predicates would
have. That is what every delivery to the first of them keeps.
-/

namespace ConstraintStreams

variable {kind : ScoreKind}

/-- Filters in a row: what goes over the first link goes through all of them before it goes over the
last. -/
inductive Graph.Chain (g : Graph kind) : Link → List TuplePredicate → Link → Prop
  | last {l c : Link} {n : Node kind} {p : TuplePredicate} : g.nodes.get? l.node = some n →
    n.operator = .filter p → c ∈ n.children → Chain g l [p] c
  | step {l d c : Link} {n : Node kind} {p : TuplePredicate} {ps : List TuplePredicate} :
    g.nodes.get? l.node = some n → n.operator = .filter p → d ∈ n.children → Chain g d ps c →
    Chain g l (p :: ps) c

/-- The memories of filters in a row, each of which lets pass some of what the one before it does. The
last memory is `m`. -/
inductive Graph.Stack (g : Graph kind) (net : Network kind) :
    Link → List TuplePredicate → Link → FilterMemory → Prop
  | last {l c : Link} {n : Node kind} {p : TuplePredicate} {m : FilterMemory} :
    g.nodes.get? l.node = some n → n.operator = .filter p → c ∈ n.children →
    net.memories.get? l.node = some (.filter m) → m.passed.Nodup → Stack g net l [p] c m
  | step {l d c : Link} {n : Node kind} {p : TuplePredicate} {ps : List TuplePredicate}
    {m m' : FilterMemory} : g.nodes.get? l.node = some n → n.operator = .filter p → d ∈ n.children →
    net.memories.get? l.node = some (.filter m) → m.passed.Nodup → m'.passed ⊆ m.passed →
    Stack g net d ps c m' → Stack g net l (p :: ps) c m'

namespace Graph

variable {g : Graph kind} {net net' : Network kind} {l c : Link} {ps : List TuplePredicate}
  {m : FilterMemory}

theorem Chain.reaches (h : g.Chain l ps c) : g.Below l c := by
  induction h with
  | last hn hop hc => exact Below.refl.step ⟨_, _, hn, hop, hc⟩
  | step hn hop hd _ ih => exact (Below.refl.step ⟨_, _, hn, hop, hd⟩).trans ih

namespace Stack

theorem nodup (h : g.Stack net l ps c m) : m.passed.Nodup := by
  induction h with
  | last _ _ _ _ hnodup => exact hnodup
  | step _ _ _ _ _ _ _ ih => exact ih

theorem chain (h : g.Stack net l ps c m) : g.Chain l ps c := by
  induction h with
  | last hn hop hc => exact .last hn hop hc
  | step hn hop hd _ _ _ _ ih => exact .step hn hop hd ih

/-- Filters that have the memories that they had are stacked as they were. -/
theorem congr (h : g.Stack net l ps c m)
    (hsame : ∀ k, g.Below l k → g.ToFilter k → net'.memories.get? k.node = net.memories.get? k.node) :
    g.Stack net' l ps c m := by
  induction h with
  | last hn hop hc hm hnodup =>
    exact .last hn hop hc ((hsame _ .refl ⟨_, _, hn, hop⟩).trans hm) hnodup
  | step hn hop hd hm hnodup hle _ ih =>
    refine .step hn hop hd ((hsame _ .refl ⟨_, _, hn, hop⟩).trans hm) hnodup hle (ih fun k hb => ?_)
    exact hsame k ((Below.refl.step ⟨_, _, hn, hop, hd⟩).trans hb)

/-- New filters let nothing pass. -/
theorem blank (h : g.Chain l ps c) (hserved : ∀ {k n}, g.nodes.get? k = some n →
      ∃ m, net.memories.get? k = some m ∧ m.Serves n.operator)
    (hblank : ∀ {k m}, net.memories.get? k = some (.filter m) → m.passed = []) :
    g.Stack net l ps c {} := by
  have new {k : NodeId} {n : Node kind} {p : TuplePredicate} (hn : g.nodes.get? k = some n)
      (hop : n.operator = .filter p) : net.memories.get? k = some (.filter {}) := by
    obtain ⟨m, hm, hserves⟩ := hserved hn
    rw [hop] at hserves
    cases m with
    | filter m => rw [hm, show m = {} from congrArg FilterMemory.mk (hblank hm)]
    | _ => exact hserves.elim
  induction h with
  | last hn hop hc => exact .last hn hop hc (new hn hop) List.nodup_nil
  | step hn hop hd _ ih => exact .step hn hop hd (new hn hop) List.nodup_nil (List.nil_subset _) ih

end Stack

end Graph

namespace Watched

open ConstraintStreams.Graph (Stack)

variable {g : Graph kind} {w w' : Watched kind} {l c : Link} {ps : List TuplePredicate}
  {m : FilterMemory} {u : TupleId} {t : Tuple} {signal : Signal} {depth : Nat} {passes : Bool}

/-- The filters stay stacked while something goes over other links than theirs. -/
theorem Along.stack {on : Link → Prop} (h : Along g on w w') (hstack : g.Stack w.net l ps c m)
    (hoff : ∀ k, g.Below l k → g.ToFilter k → ∀ l', on l' → l'.node ≠ k.node) :
    g.Stack w'.net l ps c m :=
  hstack.congr fun k hb hk => h.memories k.node (hoff k hb hk)

/-- What the child of a filter is told is what the filter answers. -/
theorem received_filter {n : Node kind} {p : TuplePredicate} (hg : g.WellFormed)
    (hn : g.nodes.get? l.node = some n) (hop : n.operator = .filter p) (hc : c ∈ n.children)
    (hm : w.net.memories.get? l.node = some (.filter m)) (h : Network.Owning g w.net)
    (ht : w.net.agenda.find? u = some t) (hp : p.run t.facts = .ok passes)
    (hrun : deliver g depth signal u l w = .ok () w') :
    w'.received c = w.received c ++ ((m.turn signal u passes).2.map (·, u)).toList := by
  obtain ⟨-, depth, w₁, w₂, hbefore, hrunc, hafter⟩ := deliver_filter hg hn hop hc hm h ht hp hrun
  have hapart := hg.not_aside hn hc .refl
  have hnotown : ¬ c = l := fun he => hg.beyond_ne ⟨n, p, hn, hop, hc⟩ .refl (congrArg Link.node he)
  rw [hafter.received_eq hapart, received_relay hg hbefore.owning hrunc,
    hbefore.received_eq (not_or.2 ⟨hnotown, hapart⟩)]

/-- A signal about a tuple goes through filters in a row as it would go through one filter with the
conjunction of their predicates. -/
theorem deliver_stack (hg : g.WellFormed) (hstack : g.Stack w.net l ps c m)
    (h : Network.Owning g w.net) (ht : w.net.agenda.find? u = some t)
    (habove : g.layerOf t.node < g.layerOf l.node) (hps : ∀ p ∈ ps, ∃ passes, p.run t.facts = .ok passes)
    (hpasses : conjunction ps t.facts = .ok passes) (hrun : deliver g depth signal u l w = .ok () w') :
    g.Stack w'.net l ps c (m.turn signal u passes).1 ∧
      w'.received c = w.received c ++ ((m.turn signal u passes).2.map (·, u)).toList := by
  induction ps generalizing l signal depth w w' passes with
  | nil => cases hstack
  | cons p ps ih =>
    obtain ⟨first, hp⟩ := hps p List.mem_cons_self
    cases hstack with
    | last hn hop hc hm hnodup =>
      obtain rfl : first = passes := conjunction_singleton hp hpasses
      obtain ⟨hturned, -⟩ := deliver_filter hg hn hop hc hm h ht hp hrun
      exact ⟨.last hn hop hc hturned (FilterMemory.nodup_turn hnodup),
        received_filter hg hn hop hc hm h ht hp hrun⟩
    | @step _ d _ n _ _ m₁ _ hn hop hd hm hnodup hle hinner =>
      obtain ⟨rest, hrest⟩ := conjunction_total fun q hq => hps q (List.mem_cons_of_mem p hq)
      obtain rfl : (first && rest) = passes :=
        Except.ok.inj ((conjunction_cons hp hrest).symm.trans hpasses)
      obtain ⟨hturned, depth, w₁, w₂, hbefore, hrund, hafter⟩ :=
        deliver_filter hg hn hop hd hm h ht hp hrun
      have hstep : g.Passes l d := ⟨n, p, hn, hop, hd⟩
      have hapart : ∀ k, g.Below d k → g.ToFilter k → ∀ l', g.Aside n.children d l' →
        l'.node ≠ k.node := fun k hb hk l' => hg.aside_ne hn hd hb hk
      have hinner₁ : g.Stack w₁.net d ps c m := hbefore.stack hinner fun k hb hk l' hl' => by
        rcases hl' with rfl | hl'
        · exact (hg.beyond_ne hstep hb).symm
        · exact hapart k hb hk l' hl'
      have hfound : w₁.net.agenda.find? u = some t := hbefore.found ht fun l' hl' =>
        hl'.elim (fun he => he ▸ habove) fun h => habove.trans (hg.aside_leads hn h).2
      -- The filters below follow what the first one answers.
      have hfollowed : g.Stack w₂.net d ps c (m.follow (m₁.turn signal u first).2 u rest).1 ∧
          w₂.received c = w₁.received c ++
            ((m.follow (m₁.turn signal u first).2 u rest).2.map (·, u)).toList := by
        cases hturn : (m₁.turn signal u first).2 with
        | none =>
          rw [hturn] at hrund
          cases hrund
          exact ⟨hinner₁, (List.append_nil _).symm⟩
        | some next =>
          rw [hturn] at hrund
          exact ih hinner₁ hbefore.owning hfound (Nat.lt_trans habove (hg.layerOf_lt hstep.leads))
            (fun q hq => hps q (List.mem_cons_of_mem p hq)) hrest hrund
      rw [← FilterMemory.turn_and hle] at hfollowed
      obtain ⟨hinner₂, hreceived⟩ := hfollowed
      have hreaches := hinner.chain.reaches
      have hlast := hg.not_aside hn hd hreaches
      have hnotown : ¬ c = l := fun he => hg.beyond_ne hstep hreaches (congrArg Link.node he)
      constructor
      · exact .step hn hop hd hturned (FilterMemory.nodup_turn hnodup)
          (FilterMemory.turn_subset hle hnodup hinner.nodup signal u first rest)
          (hafter.stack hinner₂ hapart)
      · rw [hafter.received_eq hlast, hreceived, hbefore.received_eq (not_or.2 ⟨hnotown, hlast⟩)]

end Watched

/-! ## Tuples of different nodes -/

namespace Graph.WellFormed

variable {g : Graph kind} {p q : NodeId} {k l : Link}

/-- The tuples that travel over a link are all of one node. -/
theorem carries_unique (hg : g.WellFormed) (hp : g.Carries p l) (hq : g.Carries q l) : p = q := by
  obtain ⟨n, c, hn, ho, hc, hb⟩ := hp
  obtain ⟨n', d, hn', ho', hd, hb'⟩ := hq
  have hlead : g.Leads p c := ⟨n, hn, hc⟩
  have hlead' : g.Leads q d := ⟨n', hn', hd⟩
  -- Only a filter passes on what is not its own.
  have hsame {p q : NodeId} {n : Node kind} {c d : Link} (hn : g.nodes.get? q = some n)
      (ho : n.operator.ownsTuples = true) (hc : g.Leads p c) (hd : g.Leads q d) (hb : g.Below c d) :
      p = q := by
    cases hb with
    | refl => exact hg.leads_unique hc hd
    | step _ hpasses =>
      obtain ⟨f, p, hf, hop, hchild⟩ := hpasses
      obtain rfl := hg.leads_unique ⟨f, hf, hchild⟩ hd
      cases hn.symm.trans hf
      rw [hop] at ho
      cases ho
  rcases hg.below_comparable ⟨p, hlead⟩ ⟨q, hlead'⟩ hb hb' with h | h
  · exact hsame hn' ho' hlead hlead' h
  · exact (hsame hn ho hlead' hlead h).symm

/-- A filter is not reached by tuples of different nodes. -/
theorem carries_apart (hg : g.WellFormed) (hne : p ≠ q) (hp : g.Carries p l) (hq : g.Carries q k)
    (hk : g.ToFilter k) : l.node ≠ k.node := by
  intro he
  obtain ⟨p', hp'⟩ := hg.carries_leads hp
  obtain ⟨q', hq'⟩ := hg.carries_leads hq
  obtain ⟨n, f, hn, hf⟩ := hk
  have hsame := hg.filter_link_unique hp' hq' he (he ▸ hn) (by rw [hf]; rfl)
  exact hne (hg.carries_unique hp (hsame ▸ hq))

end Graph.WellFormed

end ConstraintStreams
