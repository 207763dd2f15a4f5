import ConstraintStreams.Proofs.Image.Inputs

/-!
# Pairs and matches, tuple by tuple

In a network at rest, a join has one live tuple for each pair of inputs that match, and a semijoin one for
each left input that has a match, or has none. The tests that keep a fact from meeting itself, and a pair
from coming twice, are tests like any other, made after those of the user.
-/

namespace ConstraintStreams

/-! ## Tests that come with a type -/

namespace Joiner

variable {joiners : List Joiner} {kind : JoinerKind} {accepts : Handle PairTest} {l r : Facts}

theorem passes_append (hs : List (Handle PairTest)) (h : Handle PairTest) (l r : Facts) :
    passes (hs ++ [h]) l r = .ok true ↔ passes hs l r = .ok true ∧ h.run l r = .ok true := by
  induction hs with
  | nil => cases hrun : h.run l r with | _ => simp [passes, hrun, bind, Except.bind, pure, Except.pure]
  | cons first rest ih =>
    rw [List.cons_append, passes, passes]
    cases first.run l r with
    | error e => simp [bind, Except.bind]
    | ok accepted => cases accepted <;> simp [bind, Except.bind, pure, Except.pure, ih]

/-- A test behind some joiners has the last word on a pair, and no part in what is looked up. -/
theorem matches_append_test : Matches (joiners ++ [test kind accepts]) l r ↔
    Matches joiners l r ∧ accepts.run l r = .ok true := by
  have hleft : leftKey (joiners ++ [test kind accepts]) l = leftKey joiners l := by
    simp [leftKey, List.filterMap_append]
  have hright : rightKey (joiners ++ [test kind accepts]) r = rightKey joiners r := by
    simp [rightKey, List.filterMap_append]
  have htests : tests (joiners ++ [test kind accepts]) = tests joiners ++ [accepts] := by
    simp [tests, List.filterMap_append]
  simp only [Matches, accept, hleft, hright, htests, passes_append]
  constructor
  · rintro ⟨key, hl, hr, haccept, hlast⟩
    exact ⟨⟨key, hl, hr, haccept⟩, hlast⟩
  · rintro ⟨⟨key, hl, hr, haccept⟩, hlast⟩
    exact ⟨key, hl, hr, haccept, hlast⟩

/-- Of two entities that match, the one with the lower id stands on the left. -/
theorem matches_uniquePair {type : FactType} {a b : Entity} :
    Matches (joiners ++ [uniquePair type]) [.entity a] [.entity b] ↔
      Matches joiners [.entity a] [.entity b] ∧ a.id < b.id := by
  rw [uniquePair, matches_append_test]
  refine and_congr_right fun _ => ?_
  simp only [Facts.at?, List.getElem?_cons_zero, bind, Except.bind, pure, Except.pure, Fact.id,
    Fact.Id.order, compareOfLessAndEq, Except.ok.injEq]
  split
  · next hlt => simp [hlt]
  · next hlt => split <;> simp [hlt]

/-- The first fact of a tuple that matches another fact stands for another thing. -/
theorem matches_otherFact {type : FactType} {other : Fact} :
    Matches (joiners ++ [otherFact type]) l [other] ↔
      Matches joiners l [other] ∧ ∃ first, l.head? = some first ∧ ¬ first.Same other := by
  rw [otherFact, matches_append_test]
  refine and_congr_right fun _ => ?_
  cases l with
  | nil =>
    have hnone : ∃ e, Facts.at? [] 0 = .error e := by
      unfold Facts.at?
      split
      · next hsome => cases hsome
      · split <;> exact ⟨_, rfl⟩
    obtain ⟨e, he⟩ := hnone
    simp [he, bind, Except.bind]
  | cons first rest => simp [Facts.at?, bind, Except.bind, pure, Except.pure]

end Joiner

/-! ## Joins and semijoins at rest -/

namespace Network

variable {kind : ScoreKind} {g : Graph kind} {K : Knowledge} {net : Network kind} {p q : NodeId}
  {n : Node kind} {joiners : List Joiner} {expected : Bool} {u o : TupleId} {facts facts' : Facts}

/-- What is made for each key, and for no other, and is there once. -/
theorem OneEach.of_rel {κ : Type} {Key : κ → Prop} {Due : κ → Facts → Prop} {R : κ → TupleId → Prop}
    (hmade : ∀ k, Key k → ∃ o, R k o) (hlive : ∀ {k o}, R k o → ∃ facts, net.LiveAt p o facts)
    (hfor : ∀ {o facts}, net.LiveAt p o facts → ∃ k, Key k ∧ R k o)
    (hone : ∀ {k o o'}, R k o → R k o' → o = o') (hinj : ∀ {k k' o}, R k o → R k' o → k = k')
    (hdue : ∀ {k o facts}, Key k → R k o → net.LiveAt p o facts → Due k facts) :
    OneEach net p Key Due := by
  have : Nonempty TupleId := ⟨⟨0, 0⟩⟩
  choose! output houtput using hmade
  refine ⟨output, ⟨fun k hk => hlive (houtput k hk), fun k hk k' hk' he => ?_, ?_⟩, fun k facts hk => ?_⟩
  · exact hinj (houtput k hk) (he ▸ houtput k' hk')
  · rintro o ⟨facts, ho⟩
    obtain ⟨k, hk, hko⟩ := hfor ho
    exact ⟨k, hk, hone (houtput k hk) hko⟩
  · exact hdue hk (houtput k hk)

/-- The same tuples, counted by other keys. -/
theorem OneEach.reindex {κ κ' : Type} {Key : κ → Prop} {Due : κ → Facts → Prop} {Key' : κ' → Prop}
    {Due' : κ' → Facts → Prop} (h : OneEach net p Key Due) {e : κ' → κ}
    (he : Set.BijOn e {k | Key' k} {k | Key k})
    (hdue : ∀ k facts, Key' k → Due (e k) facts → Due' k facts) : OneEach net p Key' Due' := by
  obtain ⟨output, hbij, hfacts⟩ := h
  exact ⟨output ∘ e, hbij.comp he, fun k facts hk hlive =>
    hdue k facts hk (hfacts (e k) facts (he.mapsTo hk) hlive)⟩

/-- Where it is known what is shown for each key, the live tuples are known with their facts. -/
theorem OneEach.outputs {κ : Type} {Key : κ → Prop} {shown : κ → Facts}
    (h : OneEach net p Key fun k facts => facts = shown k) :
    ∃ output : κ → TupleId, (∀ k, Key k → net.LiveAt p (output k) (shown k)) ∧
      Set.InjOn output {k | Key k} ∧
      ∀ u facts, net.LiveAt p u facts → ∃ k, Key k ∧ output k = u ∧ facts = shown k := by
  obtain ⟨output, hbij, hfacts⟩ := h
  refine ⟨output, fun k hk => ?_, hbij.injOn, fun u facts hlive => ?_⟩
  · obtain ⟨facts, hlive⟩ := hbij.mapsTo hk
    exact hfacts k facts hk hlive ▸ hlive
  · obtain ⟨k, hk, rfl⟩ := hbij.surjOn ⟨facts, hlive⟩
    exact ⟨k, hk, rfl, hfacts k facts hk hlive⟩

/-- At rest, a join has one live tuple for each pair of inputs that match, with the facts of the left one
before those of the right one. -/
theorem Consistent.join_image (hg : g.WellFormed) (h : Consistent g K net) (hrest : AtRest g net)
    (hn : g.nodes.get? p = some n) (hop : n.operator = .join joiners) :
    OneEach net p
      (fun k : TupleId × TupleId => ∃ fl fr, Input g net n .left k.1 fl ∧ Input g net n .right k.2 fr ∧
        Joiner.Matches joiners fl fr)
      fun k shown => ∃ fl fr, Input g net n .left k.1 fl ∧ Input g net n .right k.2 fr ∧
        shown = fl ++ fr := by
  obtain ⟨m, -, hm, -, hvalid, -⟩ := h.coherent.memory hn
  rw [hop] at hvalid
  cases m <;> try exact hvalid.elim
  next m =>
  replace hvalid : JoinMemory.Valid joiners .left (K.view { net } p) (fun _ _ => False)
    (net.agenda.openAt p) m.left m.right := hvalid
  have hv := h.current hg hrest p
  have htold {side : Side} {u : TupleId} {facts : Facts} :
      (K.view { net } p).told side u = some facts ↔ Input g net n side u facts :=
    h.told_iff_input hg hrest hn
  refine .of_rel (R := fun k o => ∃ f, net.agenda.openAt p o = some (f, JoinMemory.pairOn .left k.1 k.2))
    ?_ ?_ ?_ ?_ ?_ ?_
  · rintro k ⟨fl, fr, hl, hr, hmatches⟩
    exact (hvalid.has_output hv (htold.2 hl) (htold.2 hr)).2 hmatches
  · rintro k o ⟨f, ho⟩
    exact ⟨f, hrest.liveAt_iff.2 ⟨_, ho⟩⟩
  · intro o facts hlive
    obtain ⟨sources, ho⟩ := hrest.liveAt_iff.1 hlive
    obtain ⟨x, y, key, rfl, hx, hy⟩ := hvalid.paired ho
    obtain ⟨fl, hl⟩ := Option.isSome_iff_exists.1 ((hvalid.files.lists x).1 (by simp [hx]))
    obtain ⟨fr, hr⟩ := Option.isSome_iff_exists.1 ((hvalid.filesAcross.lists y).1 (by simp [hy]))
    exact ⟨(x, y), ⟨fl, fr, htold.1 hl, htold.1 hr, (hvalid.has_output hv hl hr).1 ⟨o, facts, ho⟩⟩,
      facts, ho⟩
  · rintro k o o' ⟨f, ho⟩ ⟨f', ho'⟩
    exact hvalid.inj ho ho'
  · rintro ⟨x, y⟩ ⟨x', y'⟩ o ⟨f, ho⟩ ⟨f', ho'⟩
    obtain ⟨rfl, rfl⟩ := JoinMemory.pairOn_inj.1 (Prod.mk.inj (Option.some.inj (ho.symm.trans ho'))).2
    rfl
  · rintro k o facts ⟨fl, fr, hl, hr, -⟩ ⟨f, ho⟩ hlive
    obtain ⟨sources, ho'⟩ := hrest.liveAt_iff.1 hlive
    obtain ⟨rfl, -⟩ := Prod.mk.inj (Option.some.inj (ho.symm.trans ho'))
    exact ⟨fl, fr, hl, hr,
      hvalid.shown not_false (hv.known.2 (htold.2 hl)) (hv.known.2 (htold.2 hr)) ho⟩

/-- At rest, a semijoin has one live tuple for each left input that has a match on the right, or for each
that has none, with the facts of the input. -/
theorem Consistent.semijoin_image (hg : g.WellFormed) (h : Consistent g K net) (hrest : AtRest g net)
    (hn : g.nodes.get? p = some n) (hop : n.operator = .semijoin expected joiners) :
    OneEach net p
      (fun l => ∃ fl, Input g net n .left l fl ∧
        ((∃ r fr, Input g net n .right r fr ∧ Joiner.Matches joiners fl fr) ↔ expected = true))
      fun l shown => Input g net n .left l shown := by
  obtain ⟨m, -, hm, hclean, hvalid, -⟩ := h.coherent.memory hn
  rw [hop] at hvalid
  cases m <;> try exact hvalid.elim
  next m =>
  have howns : n.operator.ownsTuples = true := by rw [hop]; rfl
  have hdirty : m.dirty = [] := by
    simpa [NodeMemory.hasDirty, SemijoinMemory.hasDirty] using (hrest.calm hn howns).refreshed _ hm
  rw [NodeMemory.Valid, hdirty] at hvalid
  have hv := h.current hg hrest p
  have htold {side : Side} {u : TupleId} {facts : Facts} :
      (K.view { net } p).told side u = some facts ↔ Input g net n side u facts :=
    h.told_iff_input hg hrest hn
  refine (hrest.oneEach hvalid.listing).mono (fun l => ?_) ?_
  · constructor
    · intro hsome
      obtain ⟨o, ho⟩ := Option.isSome_iff_exists.1 hsome
      obtain ⟨c, hc, -⟩ := Option.bind_eq_some_iff.1 ho
      obtain ⟨fl, hl⟩ := Option.isSome_iff_exists.1 ((hvalid.counted l).1 (by simp [hc]))
      have hpasses := (hvalid.passes_iff hv hl).1 hsome
      simp only [htold] at hpasses
      exact ⟨fl, htold.1 hl, hpasses⟩
    · rintro ⟨fl, hl, hpasses⟩
      simp only [← htold] at hpasses
      exact (hvalid.passes_iff hv (htold.2 hl)).2 hpasses
  · rintro l shown ⟨fl, hl, -⟩ ⟨sources, hunder⟩
    rwa [hvalid.shown hunder (hv.known.2 (htold.2 hl))]

end Network

end ConstraintStreams
