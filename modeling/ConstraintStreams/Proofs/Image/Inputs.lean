import Mathlib.Data.Set.Function
import ConstraintStreams.Proofs.Image.Network

/-!
# Inputs and outputs, tuple by tuple

What a node offers its children are its own live tuples or, if it is a filter, what its parent offers
and it accepts. In a network at rest, a map has one live tuple for each input, a flattening one for each
item of the last fact of each input, and a concatenation one for each input on either side.
-/

namespace ConstraintStreams

namespace Network

variable {kind : ScoreKind} {g : Graph kind} {K : Knowledge} {net : Network kind} {p q : NodeId}
  {n : Node kind} {u o : TupleId} {facts facts' : Facts} {side : Side}

/-- A tuple of the node that its children see. -/
def LiveAt (net : Network kind) (p : NodeId) (u : TupleId) (facts : Facts) : Prop :=
  ∃ t, net.agenda.find? u = some t ∧ t.node = p ∧ t.stage.isLive = true ∧ t.facts = facts

theorem LiveAt.unique (h : net.LiveAt p u facts) (h' : net.LiveAt q u facts') : facts = facts' := by
  obtain ⟨t, ht, -, -, rfl⟩ := h
  obtain ⟨t', ht', -, -, rfl⟩ := h'
  cases ht.symm.trans ht'
  rfl

/-- What a node offers its children: its live tuples, and what a filter accepts of what it is
offered. -/
inductive Offers (g : Graph kind) (net : Network kind) : NodeId → TupleId → Facts → Prop
  | own {p : NodeId} {u : TupleId} {facts : Facts} (h : net.LiveAt p u facts) : Offers g net p u facts
  | accepted {p q : NodeId} {n : Node kind} {f : Handle (Facts → Except Error Bool)} {u : TupleId}
    {facts : Facts} (hn : g.nodes.get? p = some n) (hop : n.operator = .filter f)
    (hq : (q, .only) ∈ Blueprint.sides n.parents) (h : Offers g net q u facts)
    (haccept : f.run facts = .ok true) : Offers g net p u facts

/-- A tuple that reaches a node from its parent on a side. -/
def Input (g : Graph kind) (net : Network kind) (n : Node kind) (side : Side) (u : TupleId)
    (facts : Facts) : Prop :=
  ∃ q, (q, side) ∈ Blueprint.sides n.parents ∧ Offers g net q u facts

/-- The node has one live tuple for each key, with facts as they are due there, and no other. -/
def OneEach {κ : Type} (net : Network kind) (p : NodeId) (Key : κ → Prop) (Due : κ → Facts → Prop) :
    Prop :=
  ∃ output : κ → TupleId, Set.BijOn output {k | Key k} {o | ∃ facts, net.LiveAt p o facts} ∧
    ∀ k facts, Key k → net.LiveAt p (output k) facts → Due k facts

/-! ## What a node is offered -/

/-- At rest, the live tuples of a node are its open ones. -/
theorem AtRest.liveAt_iff (hrest : AtRest g net) :
    net.LiveAt p u facts ↔ ∃ sources, net.agenda.openAt p u = some (facts, sources) := by
  simp only [Agenda.openAt_eq_some_iff]
  constructor
  · rintro ⟨t, ht, hnode, -, hfacts⟩
    exact ⟨t.sources, t, ht, hnode, by rw [hrest.settled ht]; rfl, hfacts, rfl⟩
  · rintro ⟨sources, t, ht, hnode, -, hfacts, -⟩
    exact ⟨t, ht, hnode, by rw [hrest.settled ht]; rfl, hfacts⟩

/-- At rest, a filter knows which of its inputs it accepts. -/
theorem Consistent.mem_passedAt_iff (hg : g.WellFormed) (h : Consistent g K net)
    (hrest : AtRest g net) {f : Handle (Facts → Except Error Bool)} (hn : g.nodes.get? p = some n)
    (hop : n.operator = .filter f) (htold : K.told ⟨p, .only⟩ u = some facts) :
    u ∈ net.passedAt p ↔ f.run facts = .ok true := by
  obtain ⟨m, -, hm, -, hvalid, -⟩ := h.coherent.memory hn
  rw [hop] at hvalid
  cases m <;> try exact hvalid.elim
  next m =>
  rw [passedAt, hm]
  exact FilterMemory.Valid.passed_iff hvalid ((h.current hg hrest p).known.2 htold)

/-- At rest, a node was told what its parent on that side shows. -/
theorem Consistent.told_parent (hg : g.WellFormed) (h : Consistent g K net) (hrest : AtRest g net)
    (hn : g.nodes.get? p = some n) (hq : (q, side) ∈ Blueprint.sides n.parents) :
    K.told ⟨p, side⟩ = net.shownAt q := by
  obtain ⟨nq, hnq, -⟩ := hg.linked.below hn (Blueprint.mem_parents_of_sides hq)
  exact h.told_eq hg hrest ⟨nq, hnq, (hg.linked.links hnq).2 ⟨n, hn, hq⟩⟩

/-- What a node was told of comes from a parent. -/
theorem Consistent.exists_parent (hg : g.WellFormed) (h : Consistent g K net)
    (hn : g.nodes.get? p = some n) (htold : K.told ⟨p, side⟩ u = some facts) :
    ∃ q, (q, side) ∈ Blueprint.sides n.parents := by
  by_contra hnone
  rw [h.told_side hg hn (not_exists.1 hnone)] at htold
  cases htold

/-- At rest, what a node shows is what it offers. -/
theorem Consistent.shownAt_iff_offers (hg : g.WellFormed) (h : Consistent g K net)
    (hrest : AtRest g net) (hn : g.nodes.get? p = some n) :
    net.shownAt p u = some facts ↔ Offers g net p u facts := by
  constructor
  · -- upwards along the filters above the node, each of which lies in a higher layer
    induction hlayer : g.layerOf p using Nat.strongRecOn generalizing p n with
    | ind layer ih =>
      intro hshown
      obtain ⟨t, ht, hfacts, ⟨t', ht', hnode, -⟩ | hpassed⟩ := shownAt_eq_some_iff.1 hshown
      · cases ht.symm.trans ht'
        exact .own ⟨t, ht, hnode, by rw [hrest.settled ht]; rfl, hfacts⟩
      · obtain ⟨⟨f, hop⟩, -⟩ := h.coherent.of_passed hn hpassed
        have htold := hshown
        simp only [h.shownAt_filter hg hrest hn hop, if_pos hpassed] at htold
        obtain ⟨q, hq⟩ := h.exists_parent hg hn htold
        obtain ⟨nq, hnq, hlt⟩ := hg.linked.below hn (Blueprint.mem_parents_of_sides hq)
        rw [← Graph.layerOf_eq hnq, ← Graph.layerOf_eq hn, hlayer] at hlt
        have haccept := (h.mem_passedAt_iff hg hrest hn hop htold).1 hpassed
        rw [h.told_parent hg hrest hn hq] at htold
        exact .accepted hn hop hq (ih _ hlt hnq rfl htold) haccept
  · intro hoffers
    induction hoffers generalizing n with
    | own hlive =>
      obtain ⟨t, ht, hnode, -, hfacts⟩ := hlive
      exact shownAt_eq_some_iff.2 ⟨t, ht, hfacts, .inl ⟨t, ht, hnode, by rw [hrest.settled ht]; rfl⟩⟩
    | accepted hp hop hq _ haccept ih =>
      obtain ⟨nq, hnq, -⟩ := hg.linked.below hp (Blueprint.mem_parents_of_sides hq)
      have htold := ih hnq
      rw [← h.told_parent hg hrest hp hq] at htold
      have hpassed := (h.mem_passedAt_iff hg hrest hp hop htold).2 haccept
      simp only [h.shownAt_filter hg hrest hp hop, if_pos hpassed, htold]

/-- At rest, the inputs of a node are what it was told of. -/
theorem Consistent.told_iff_input (hg : g.WellFormed) (h : Consistent g K net) (hrest : AtRest g net)
    (hn : g.nodes.get? p = some n) : K.told ⟨p, side⟩ u = some facts ↔ Input g net n side u facts := by
  constructor
  · intro htold
    obtain ⟨q, hq⟩ := h.exists_parent hg hn htold
    obtain ⟨nq, hnq, -⟩ := hg.linked.below hn (Blueprint.mem_parents_of_sides hq)
    rw [h.told_parent hg hrest hn hq] at htold
    exact ⟨q, hq, (h.shownAt_iff_offers hg hrest hnq).1 htold⟩
  · rintro ⟨q, hq, hoffers⟩
    obtain ⟨nq, hnq, -⟩ := hg.linked.below hn (Blueprint.mem_parents_of_sides hq)
    rw [h.told_parent hg hrest hn hq]
    exact (h.shownAt_iff_offers hg hrest hnq).2 hoffers

/-! ## One output for each key -/

variable {κ κ' : Type}

theorem OneEach.mono {Key Key' : κ → Prop} {Due Due' : κ → Facts → Prop} (h : OneEach net p Key Due)
    (hkey : ∀ k, Key k ↔ Key' k) (hdue : ∀ k facts, Key' k → Due k facts → Due' k facts) :
    OneEach net p Key' Due' := by
  obtain ⟨output, hbij, hfacts⟩ := h
  obtain rfl : Key = Key' := funext fun k => propext (hkey k)
  exact ⟨output, hbij, fun k facts hk hlive => hdue k facts hk (hfacts k facts hk hlive)⟩

/-- What an operator lists are its live tuples. -/
theorem AtRest.oneEach (hrest : AtRest g net) {label : κ → Option TupleId}
    (h : Listing label (net.agenda.openAt p)) :
    OneEach net p (fun k => (label k).isSome = true) fun k facts =>
      ∃ sources, outputUnder label (net.agenda.openAt p) k = some (facts, sources) := by
  have hlabel {k : κ} (hk : (label k).isSome = true) : label k = some ((label k).getD ⟨0, 0⟩) := by
    obtain ⟨o, ho⟩ := Option.isSome_iff_exists.1 hk
    rw [ho]
    rfl
  refine ⟨fun k => (label k).getD ⟨0, 0⟩, ⟨fun k hk => ?_, fun k hk k' hk' he => ?_, ?_⟩, ?_⟩
  · obtain ⟨⟨facts, sources⟩, ho⟩ := h.opened (hlabel hk)
    exact ⟨facts, hrest.liveAt_iff.2 ⟨sources, ho⟩⟩
  · exact h.inj (hlabel hk) ((hlabel hk').trans (congrArg some he.symm))
  · rintro o ⟨facts, hlive⟩
    obtain ⟨sources, ho⟩ := hrest.liveAt_iff.1 hlive
    obtain ⟨k, hk⟩ := h.owned ho
    exact ⟨k, by simp [hk], by simp [hk]⟩
  · intro k facts hk hlive
    obtain ⟨sources, ho⟩ := hrest.liveAt_iff.1 hlive
    exact ⟨sources, by rw [outputUnder, hlabel hk]; exact ho⟩

/-- At rest, a map has one live tuple for each input, with what the mapper makes of its facts. -/
theorem Consistent.map_image (hg : g.WellFormed) (h : Consistent g K net) (hrest : AtRest g net)
    (hn : g.nodes.get? p = some n) {mapper : Handle (Facts → Except Error Facts)}
    (hop : n.operator = .map mapper) :
    OneEach net p (fun u => ∃ facts, Input g net n .only u facts) fun u shown =>
      ∃ facts, Input g net n .only u facts ∧ MapMemory.IsImage mapper.run facts shown := by
  obtain ⟨m, -, hm, -, hvalid, -⟩ := h.coherent.memory hn
  rw [hop] at hvalid
  cases m <;> try exact hvalid.elim
  next m =>
  replace hvalid : m.Valid mapper.run (K.view { net } p) (net.agenda.openAt p) := hvalid
  have hv := h.current hg hrest p
  refine (hrest.oneEach hvalid.listing).mono (fun u => ?_) ?_
  · rw [hvalid.held, View.Held, Option.isSome_iff_exists]
    exact exists_congr fun facts => h.told_iff_input hg hrest hn
  · rintro u shown ⟨facts, hinput⟩ ⟨sources, hshown⟩
    have htold := (h.told_iff_input hg hrest hn).2 hinput
    exact ⟨facts, hinput, hvalid.image_of hshown (hv.known.2 htold)⟩

/-- At rest, a concatenation has one live tuple for each input on either side, with its facts. -/
theorem Consistent.concat_image (hg : g.WellFormed) (h : Consistent g K net) (hrest : AtRest g net)
    (hn : g.nodes.get? p = some n) (hop : n.operator = .concat) :
    OneEach net p (fun k : Side × TupleId => ∃ facts, Input g net n k.1 k.2 facts) fun k shown =>
      Input g net n k.1 k.2 shown := by
  obtain ⟨m, -, hm, -, hvalid, -⟩ := h.coherent.memory hn
  rw [hop] at hvalid
  cases m <;> try exact hvalid.elim
  next m =>
  replace hvalid : m.Valid (K.view { net } p) (net.agenda.openAt p) := hvalid
  have hv := h.current hg hrest p
  refine (hrest.oneEach hvalid.listing).mono (fun k => ?_) ?_
  · rw [hvalid.held, View.Held, Option.isSome_iff_exists]
    exact exists_congr fun facts => h.told_iff_input hg hrest hn
  · rintro k shown ⟨facts, hinput⟩ ⟨sources, hshown⟩
    have htold := (h.told_iff_input hg hrest hn).2 hinput
    rwa [hvalid.image_of hshown (hv.known.2 htold)]

end Network

namespace FlattenMemory

/-- The items that are made of the last of some facts. -/
def Expands (items : Fact → Except Error (List Fact)) (facts : Facts) (expanded : List Fact) : Prop :=
  ∃ last, facts.last? = .ok last ∧ items last = .ok expanded

theorem Expands.unique {items : Fact → Except Error (List Fact)} {facts : Facts}
    {expanded expanded' : List Fact} (h : Expands items facts expanded)
    (h' : Expands items facts expanded') : expanded = expanded' := by
  obtain ⟨last, hlast, hitems⟩ := h
  obtain ⟨last', hlast', hitems'⟩ := h'
  cases hlast.symm.trans hlast'
  exact Except.ok.inj (hitems.symm.trans hitems')

/-- The output for an input and the position of an item. -/
def outputAt (m : FlattenMemory) (k : TupleId × Nat) : Option TupleId :=
  (m.outputs.get? k.1).bind fun os => os[k.2]?

variable {items : Fact → Except Error (List Fact)} {v : View} {m : FlattenMemory}
  {out : TupleId → Option (Facts × Sources)} {u o : TupleId} {told : Facts}

theorem mem_outputAt {k : TupleId × Nat} (h : m.outputAt k = some o) :
    ∃ os, m.outputs.get? k.1 = some os ∧ os[k.2]? = some o :=
  Option.bind_eq_some_iff.1 h

theorem Valid.listing (h : Valid items v out m) : Listing m.outputAt out where
  opened hk := by
    obtain ⟨os, hos, ho⟩ := mem_outputAt hk
    exact (h.opened hos).2 _ (List.mem_of_getElem? ho)
  owned ho := by
    obtain ⟨u, os, hos, hmem⟩ := h.owned ho
    obtain ⟨i, hi⟩ := List.getElem?_of_mem hmem
    exact ⟨(u, i), by rw [outputAt, hos]; exact hi⟩
  inj {k k' o} hk hk' := by
    obtain ⟨os, hos, ho⟩ := mem_outputAt hk
    obtain ⟨os', hos', ho'⟩ := mem_outputAt hk'
    have hinput := h.inj hos hos' (List.mem_of_getElem? ho) (List.mem_of_getElem? ho')
    rw [← hinput, hos] at hos'
    cases hos'
    refine Prod.ext hinput ?_
    obtain ⟨hlt, -⟩ := List.getElem?_eq_some_iff.1 ho
    exact (List.getElem?_inj hlt (h.opened hos).1).1 (ho.trans ho'.symm)

/-- The outputs of an input that is known show the items that are made of its last fact. -/
theorem Valid.expansion (h : Valid items v out m) (hk : v.Known .only u told) :
    ∃ expanded number, Expands items told expanded ∧ ∀ i, outputUnder m.outputAt out (u, i) =
      ((Fact.numberItemsFrom number expanded).1[i]?).map fun item =>
        (told.dropLast ++ [item], .single u) := by
  obtain ⟨os, hos⟩ := h.held.get?_some hk.held
  obtain ⟨last, expanded, number, hlast, hitems, hshown⟩ := h.expands hos hk
  refine ⟨expanded, number, ⟨last, hlast, hitems⟩, fun i => ?_⟩
  have hat := congrArg (·[i]?) hshown
  simp only [List.getElem?_map] at hat
  rw [outputUnder, outputAt, hos]
  show (os[i]?).bind out = _
  cases ho : os[i]? with
  | none =>
    cases hitem : (Fact.numberItemsFrom number expanded).1[i]? with
    | none => rfl
    | some item => simp [ho, hitem] at hat
  | some o =>
    cases hitem : (Fact.numberItemsFrom number expanded).1[i]? with
    | none => simp [ho, hitem] at hat
    | some item => simpa [ho, hitem] using hat

end FlattenMemory

namespace Network

variable {kind : ScoreKind} {g : Graph kind} {K : Knowledge} {net : Network kind} {p : NodeId}
  {n : Node kind}

/-- At rest, a flattening has one live tuple for each item that is made of the last fact of an input,
behind the other facts of the input. -/
theorem Consistent.flatten_image (hg : g.WellFormed) (h : Consistent g K net) (hrest : AtRest g net)
    (hn : g.nodes.get? p = some n) {items : Handle (Fact → Except Error (List Fact))}
    (hop : n.operator = .flatten items) :
    (∀ u facts, Input g net n .only u facts → ∃ expanded, FlattenMemory.Expands items.run facts expanded) ∧
    OneEach net p
      (fun k : TupleId × Nat => ∃ facts expanded, Input g net n .only k.1 facts ∧
        FlattenMemory.Expands items.run facts expanded ∧ k.2 < expanded.length)
      fun k shown => ∃ facts expanded number item, Input g net n .only k.1 facts ∧
        FlattenMemory.Expands items.run facts expanded ∧
        (Fact.numberItemsFrom number expanded).1[k.2]? = some item ∧
        shown = facts.dropLast ++ [item] := by
  obtain ⟨m, -, hm, -, hvalid, -⟩ := h.coherent.memory hn
  rw [hop] at hvalid
  cases m <;> try exact hvalid.elim
  next m =>
  replace hvalid : m.Valid items.run (K.view { net } p) (net.agenda.openAt p) := hvalid
  have hv := h.current hg hrest p
  have hexpansion {u : TupleId} {facts : Facts} (hinput : Input g net n .only u facts) :=
    hvalid.expansion (hv.known.2 ((h.told_iff_input hg hrest hn).2 hinput))
  refine ⟨fun u facts hinput => ?_, (hrest.oneEach hvalid.listing).mono (fun k => ?_) ?_⟩
  · obtain ⟨expanded, number, hexpands, -⟩ := hexpansion hinput
    exact ⟨expanded, hexpands⟩
  · obtain ⟨u, i⟩ := k
    constructor
    · intro hsome
      obtain ⟨o, ho⟩ := Option.isSome_iff_exists.1 hsome
      obtain ⟨os, hos, -⟩ := FlattenMemory.mem_outputAt ho
      obtain ⟨facts, htold⟩ := Option.isSome_iff_exists.1 ((hvalid.held u).1 (by rw [hos]; rfl))
      have hinput := (h.told_iff_input hg hrest hn).1 htold
      obtain ⟨expanded, number, hexpands, hshown⟩ := hexpansion hinput
      rw [← hvalid.listing.isSome_outputUnder, hshown, Option.isSome_map, isSome_getElem?,
        Facts.length_numberItemsFrom] at hsome
      exact ⟨facts, expanded, hinput, hexpands, hsome⟩
    · rintro ⟨facts, expanded, hinput, hexpands, hlt⟩
      obtain ⟨expanded', number, hexpands', hshown⟩ := hexpansion hinput
      obtain rfl := hexpands.unique hexpands'
      rwa [← hvalid.listing.isSome_outputUnder, hshown, Option.isSome_map, isSome_getElem?,
        Facts.length_numberItemsFrom]
  · rintro ⟨u, i⟩ shown ⟨facts, -, hinput, -, -⟩ ⟨sources, hunder⟩
    obtain ⟨expanded, number, hexpands, hshown⟩ := hexpansion hinput
    rw [hshown, Option.map_eq_some_iff] at hunder
    obtain ⟨item, hitem, he⟩ := hunder
    exact ⟨facts, expanded, number, item, hinput, hexpands, hitem, (Prod.mk.inj he).1.symm⟩

/-- Maps, flattenings and concatenations have the image of their inputs, tuple by tuple. -/
structure Images (g : Graph kind) (net : Network kind) (p : NodeId) (n : Node kind) : Prop where
  /-- One live tuple for each input, with what the mapper makes of its facts. -/
  map : ∀ {mapper}, n.operator = .map mapper →
    OneEach net p (fun u => ∃ facts, Input g net n .only u facts) fun u shown =>
      ∃ facts, Input g net n .only u facts ∧ MapMemory.IsImage mapper.run facts shown
  /-- The items of every input could be made. -/
  expands : ∀ {items}, n.operator = .flatten items →
    ∀ u facts, Input g net n .only u facts → ∃ expanded, FlattenMemory.Expands items.run facts expanded
  /-- One live tuple for each item of an input, behind the other facts of the input. -/
  flatten : ∀ {items}, n.operator = .flatten items →
    OneEach net p
      (fun k : TupleId × Nat => ∃ facts expanded, Input g net n .only k.1 facts ∧
        FlattenMemory.Expands items.run facts expanded ∧ k.2 < expanded.length)
      fun k shown => ∃ facts expanded number item, Input g net n .only k.1 facts ∧
        FlattenMemory.Expands items.run facts expanded ∧
        (Fact.numberItemsFrom number expanded).1[k.2]? = some item ∧
        shown = facts.dropLast ++ [item]
  /-- One live tuple for each input on either side, with its facts. -/
  concat : n.operator = .concat →
    OneEach net p (fun k : Side × TupleId => ∃ facts, Input g net n k.1 k.2 facts) fun k shown =>
      Input g net n k.1 k.2 shown

/-- At rest, every node has the image of its inputs. -/
theorem Consistent.images (hg : g.WellFormed) (h : Consistent g K net) (hrest : AtRest g net)
    (hn : g.nodes.get? p = some n) : Images g net p n where
  map hop := h.map_image hg hrest hn hop
  expands hop := (h.flatten_image hg hrest hn hop).1
  flatten hop := (h.flatten_image hg hrest hn hop).2
  concat hop := h.concat_image hg hrest hn hop

end Network

end ConstraintStreams
