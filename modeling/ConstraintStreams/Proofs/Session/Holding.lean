import ConstraintStreams.Proofs.Network.Weight
import ConstraintStreams.Proofs.Session.Poisoning

/-!
# What holds of every session

`Session.Holds` ties the facts and the weights that a session lists to its network: every fact is
shown at just those sources of its type that it is visible at, by the tuples listed for it, and every
constraint has the weight that was set last. All calls that succeed keep this, so it holds of every
session that is reached.
-/

namespace ConstraintStreams

/-- The errors that a call may end with, whatever the functions of the user do. -/
structure Error.Admits (E : Error → Prop) : Prop extends Error.Tolerates E where
  duplicate : ∀ type id, E (.duplicateFact type id)
  missing : ∀ type id, E (.factNotFound type id)
  unnamed : ∀ name, E (.constraintNotFound name)
  poisoned : E .sessionPoisoned

namespace Shown

variable {shown : Shown} {k : Fact.Key} {fact : Fact} {p : NodeId} {tuple : Option TupleId}
  {rest : List (NodeId × Option TupleId)}

/-- Some tuples are all that is shown of a fact at their sources. -/
def overlay (shown : Shown) (k : Fact.Key) (fact : Fact) (tuples : List (NodeId × Option TupleId)) :
    Shown :=
  fun k' p => if k = k' then
    match Table.find p tuples with
    | some tuple => tuple.map fun id => (id, fact)
    | none => shown k' p
  else shown k' p

theorem overlay_nil : shown.overlay k fact [] = shown := by
  funext k' p
  unfold overlay
  split <;> rfl

/-- What the first tuple shows can be put in place before the others. -/
theorem overlay_put (hp : p ∉ rest.map Prod.fst) :
    (shown.put k p (tuple.map fun id => (id, fact))).overlay k fact rest
      = shown.overlay k fact ((p, tuple) :: rest) := by
  funext k' q
  unfold overlay
  by_cases hk : k = k'
  · subst hk
    rw [if_pos rfl, if_pos rfl]
    by_cases hq : p = q
    · subst hq
      rw [Table.find_eq_none_iff.2 hp]
      simp [Table.find]
    · rw [put_of_ne fun he => hq he.2]
      simp [Table.find, hq]
  · rw [if_neg hk, if_neg hk, put_of_ne fun he => hk he.1]

end Shown

namespace Session

variable {kind : ScoreKind}

/-- Which fact is shown at which source, and by which tuple. -/
def shown (s : Session kind) : Shown := fun k p =>
  (s.facts.get? k).bind fun entry =>
    (Table.find p entry.tuples).join.map fun id => (id, entry.fact)

/-- The facts are shown where they are visible, and the weights that were set are in force. -/
structure Holds (g : Graph kind) (s : Session kind) : Prop where
  graph : s.graph = g
  sourced : Network.Sourced g s.shown s.network
  keyed : ∀ {k entry}, s.facts.get? k = some entry → entry.fact.key = k
  listed : ∀ {k entry}, s.facts.get? k = some entry →
    entry.tuples.map Prod.fst = g.sourcesOf entry.fact.type
  visible : ∀ {k entry e}, s.facts.get? k = some entry → e ∈ entry.tuples →
    isVisible g e.1 entry.fact = .ok e.2.isSome
  weighed : ∀ {name p n c}, g.names.get? name = some p → g.nodes.get? p = some n →
    n.operator = .constraint c →
    s.network.weightAt p = some ((s.weights.get? name).getD c.weight)
  named : ∀ {name weight}, s.weights.get? name = some weight → ∃ p, g.names.get? name = some p

variable {g : Graph kind} {E : Error → Prop} {s : Session kind} {fact old : Fact} {k : Fact.Key}
  {p : NodeId} {tuple : Option TupleId} {shown : Shown}

/-! ## The sources of one fact -/

theorem isVisible_error (hsafe : g.Safe E) (hp : p ∈ g.sourcesOf fact.type) {e : Error}
    (h : isVisible g p fact = .error e) : E e := by
  obtain ⟨n, includeUnassigned, visibility, hn, hop⟩ := Graph.mem_sourcesOf.1 hp
  have hnode : g.node p = .ok n := by simp [Graph.node, hn]
  have hpredicate := hsafe p n hn
  rw [hop] at hpredicate
  simp only [isVisible, hnode, bind, Except.bind, hop] at h
  split at h
  · next he => cases he; exact hpredicate _ rfl fact e h
  · cases h

/-- A source is brought up to date with a fact: it shows the fact exactly if it is visible. -/
theorem refreshAt_spec (hE : Error.Tolerates E) (hsafe : g.Safe E) (hgraph : s.graph = g)
    (h : Network.Sourced g shown s.network) (hp : p ∈ g.sourcesOf fact.type)
    (hold : shown k p = tuple.map fun id => (id, old)) :
    Action.Ensures E (refreshAt fact p tuple) s fun tuple' s' => ∃ net, s' = { s with network := net } ∧
      isVisible g p fact = .ok tuple'.isSome ∧ s.network.Amends net ∧
      Network.Sourced g (shown.put k p (tuple'.map fun id => (id, fact))) net := by
  subst hgraph
  obtain ⟨n, includeUnassigned, visibility, hn, hop⟩ := Graph.mem_sourcesOf.1 hp
  unfold refreshAt
  rw [Action.ensures_bind, Action.ensures_get, Action.ensures_bind, Action.ensures_lift]
  refine ⟨fun visible hvisible => ?_, fun e => isVisible_error hsafe hp⟩
  cases tuple with
  | some id =>
    cases visible with
    | true =>
      rw [Action.ensures_bind]
      exact Action.ensures_within.2 ((Network.updateSource_spec h hold).mono
        fun _ net ⟨h', hm⟩ => ⟨net, rfl, hvisible, hm, h'⟩)
    | false =>
      rw [Action.ensures_bind]
      exact Action.ensures_within.2 ((Network.retractSource_spec h hold).mono
        fun _ net ⟨h', hm⟩ => ⟨net, rfl, hvisible, hm, h'⟩)
  | none =>
    cases visible with
    | true =>
      rw [Action.ensures_bind]
      exact Action.ensures_within.2 ((Network.insertSource_spec hE h hn ⟨_, _, _, hop⟩ hold).mono
        fun id net ⟨h', hm⟩ => ⟨net, rfl, hvisible, hm, h'⟩)
    | false =>
      have hsame : shown.put k p none = shown := Shown.put_eq_self hold
      refine ⟨s.network, rfl, hvisible, .refl _, ?_⟩
      show Network.Sourced _ (shown.put k p none) _
      rwa [hsame]

/-- A new fact is one that no source shows so far. -/
theorem attachAt_eq (fact : Fact) (p : NodeId) : (attachAt fact p : SessionAction kind _) =
    (fun tuple => (p, tuple)) <$> refreshAt fact p none := by
  unfold attachAt refreshAt
  simp only [map_bind]
  refine bind_congr fun s => bind_congr fun visible => ?_
  cases visible <;> simp

theorem attachAll_spec (hE : Error.Tolerates E) (hsafe : g.Safe E) {nodes : List NodeId}
    (hnodes : ∀ p ∈ nodes, p ∈ g.sourcesOf fact.type) (hnodup : nodes.Nodup) (hgraph : s.graph = g)
    (h : Network.Sourced g shown s.network) (hnone : ∀ p ∈ nodes, shown k p = none) :
    Action.Ensures E (nodes.mapM (attachAt fact)) s fun tuples s' =>
      ∃ net, s' = { s with network := net } ∧ tuples.map Prod.fst = nodes ∧
        (∀ e ∈ tuples, isVisible g e.1 fact = .ok e.2.isSome) ∧
        s.network.Amends net ∧ Network.Sourced g (shown.overlay k fact tuples) net := by
  induction nodes generalizing s shown with
  | nil =>
    refine ⟨s.network, rfl, rfl, fun e he => (nomatch he), .refl _, ?_⟩
    rw [List.reverse_nil, Shown.overlay_nil]
    exact h
  | cons p rest ih =>
    obtain ⟨hfresh, hrest⟩ := List.nodup_cons.1 hnodup
    rw [List.mapM_cons, Action.ensures_bind, attachAt_eq, Action.ensures_map]
    have hold : shown k p = (none : Option TupleId).map fun id => (id, fact) :=
      hnone p List.mem_cons_self
    refine (refreshAt_spec hE hsafe hgraph h (hnodes p List.mem_cons_self) hold).mono
      fun tuple s₁ ⟨net₁, hs₁, hvisible, hm₁, h₁⟩ => ?_
    subst hs₁
    have hnone₁ : ∀ q ∈ rest, shown.put k p (tuple.map fun id => (id, fact)) k q = none := by
      intro q hq
      have hne : p ≠ q := fun he => hfresh (he ▸ hq)
      rw [Shown.put_of_ne fun he => hne he.2]
      exact hnone q (List.mem_cons_of_mem p hq)
    rw [Action.ensures_bind]
    refine (ih (s := { s with network := net₁ }) (fun q hq => hnodes q (List.mem_cons_of_mem p hq))
      hrest hgraph h₁ hnone₁).mono
      fun tuples s₂ ⟨net₂, hs₂, hfst, hvisible₂, hm₂, h₂⟩ => ?_
    subst hs₂
    refine ⟨net₂, rfl, by simp [hfst], fun e he => ?_, hm₁.trans hm₂, ?_⟩
    · rcases List.mem_cons.1 he with rfl | he
      · exact hvisible
      · exact hvisible₂ e he
    · rwa [Shown.overlay_put (by rwa [hfst])] at h₂

/-- Some tuples are noted for a fact, and what the sources show of it is what they say. -/
theorem refreshTuples_spec (hE : Error.Tolerates E) (hsafe : g.Safe E)
    {done rest : List (NodeId × Option TupleId)} (hgraph : s.graph = g) (hkey : fact.key = k)
    (hnodes : ∀ e ∈ rest, e.1 ∈ g.sourcesOf fact.type) (hnodup : (rest.map Prod.fst).Nodup)
    (h : Network.Sourced g shown s.network)
    (hold : ∀ e ∈ rest, shown k e.1 = e.2.map fun id => (id, old))
    (hentry : s.facts.get? k = some ⟨old, done ++ rest⟩) :
    Action.Ensures E (refreshTuples fact old done rest) s fun _ s' => ∃ net facts tuples,
      s' = { s with network := net, facts := facts } ∧ tuples.map Prod.fst = rest.map Prod.fst ∧
        (∀ e ∈ tuples, isVisible g e.1 fact = .ok e.2.isSome) ∧
        s.network.Amends net ∧ Network.Sourced g (shown.overlay k fact tuples) net ∧
        ∀ k', facts.get? k' = if k = k' then some ⟨old, done ++ tuples⟩ else s.facts.get? k' := by
  induction rest generalizing s shown done with
  | nil =>
    refine ⟨s.network, s.facts, [], rfl, rfl, fun e he => (nomatch he), .refl _, ?_, fun k' => ?_⟩
    · rw [Shown.overlay_nil]
      exact h
    · split
      · next hk => rw [← hk, hentry]
      · rfl
  | cons e rest ih =>
    obtain ⟨p, tuple⟩ := e
    obtain ⟨hfresh, hrest⟩ := List.nodup_cons.1 hnodup
    unfold refreshTuples
    rw [Action.ensures_bind]
    refine (refreshAt_spec hE hsafe hgraph h (hnodes (p, tuple) List.mem_cons_self)
      (hold (p, tuple) List.mem_cons_self)).mono fun tuple' s₁ ⟨net₁, hs₁, hvisible, hm₁, h₁⟩ => ?_
    subst hs₁
    rw [Action.ensures_bind, Action.ensures_modify, hkey]
    have hold₁ : ∀ e ∈ rest, shown.put k p (tuple'.map fun id => (id, fact)) k e.1
        = e.2.map fun id => (id, old) := by
      intro e he
      have hne : p ≠ e.1 := fun heq => hfresh (List.mem_map.2 ⟨e, he, heq.symm⟩)
      rw [Shown.put_of_ne fun heq => hne heq.2]
      exact hold e (List.mem_cons_of_mem _ he)
    have hentry₁ : (s.facts.insert k ⟨old, (done ++ [(p, tuple')]) ++ rest⟩).get? k
        = some ⟨old, (done ++ [(p, tuple')]) ++ rest⟩ := by
      rw [Table.get?_insert, if_pos rfl]
    refine (ih (s := { s with
        network := net₁, facts := s.facts.insert k ⟨old, (done ++ [(p, tuple')]) ++ rest⟩ })
      hgraph (fun e he => hnodes e (List.mem_cons_of_mem _ he)) hrest h₁ hold₁ hentry₁).mono
      fun _ s₂ ⟨net₂, facts, tuples, hs₂, hfst, hvisible₂, hm₂, h₂, hfacts⟩ => ?_
    subst hs₂
    refine ⟨net₂, facts, (p, tuple') :: tuples, rfl, by simp [hfst], fun e he => ?_, hm₁.trans hm₂, ?_,
      fun k' => ?_⟩
    · rcases List.mem_cons.1 he with rfl | he
      · exact hvisible
      · exact hvisible₂ e he
    · rwa [Shown.overlay_put (by rwa [hfst])] at h₂
    · rw [hfacts, Table.get?_insert]
      split
      · simp
      · rfl

/-- What was shown of a fact is withdrawn, tuple by tuple. -/
theorem withdrawAll_spec {tuples : List (NodeId × Option TupleId)}
    (hnodup : (tuples.map Prod.fst).Nodup) (h : Network.Sourced g shown s.network)
    (hold : ∀ e ∈ tuples, shown k e.1 = e.2.map fun id => (id, old)) :
    Action.Ensures E ((tuples.filterMap Prod.snd).forM fun id => onNetwork (Network.retractSource id)) s
      fun _ s' => ∃ net, s' = { s with network := net } ∧ s.network.Amends net ∧
        Network.Sourced g (shown.overlay k old (tuples.map fun e => (e.1, none))) net := by
  induction tuples generalizing s shown with
  | nil =>
    refine ⟨s.network, rfl, .refl _, ?_⟩
    rw [List.map_nil, Shown.overlay_nil]
    exact h
  | cons e rest ih =>
    obtain ⟨p, tuple⟩ := e
    obtain ⟨hfresh, hrest⟩ := List.nodup_cons.1 hnodup
    have hfresh' : p ∉ (rest.map fun e => ((e.1, none) : NodeId × Option TupleId)).map Prod.fst := by
      simpa using hfresh
    have hhead : shown k p = tuple.map fun id => (id, old) := hold (p, tuple) List.mem_cons_self
    have htail : ∀ e ∈ rest, shown.put k p none k e.1 = e.2.map fun id => (id, old) := by
      intro e he
      have hne : p ≠ e.1 := fun heq => hfresh (List.mem_map.2 ⟨e, he, heq.symm⟩)
      rw [Shown.put_of_ne fun heq => hne heq.2]
      exact hold e (List.mem_cons_of_mem _ he)
    have hover : (shown.put k p none).overlay k old (rest.map fun e => (e.1, none))
        = shown.overlay k old (((p, tuple) :: rest).map fun e => (e.1, none)) := by
      have hput : (shown.put k p ((none : Option TupleId).map fun id => (id, old))).overlay k old
          (rest.map fun e => (e.1, none)) = _ := Shown.overlay_put hfresh'
      simpa using hput
    cases tuple with
    | none =>
      have hcons : ((p, none) :: rest).filterMap Prod.snd
          = (rest.filterMap Prod.snd : List TupleId) := rfl
      rw [hcons]
      have hsame : shown.put k p none = shown := Shown.put_eq_self hhead
      rw [← hover, hsame]
      rw [hsame] at htail
      exact ih hrest h htail
    | some id =>
      have hcons : ((p, some id) :: rest).filterMap Prod.snd = id :: rest.filterMap Prod.snd := rfl
      rw [hcons, Action.ensures_forM_cons]
      refine Action.ensures_within.2 ((Network.retractSource_spec h hhead).mono
        fun _ net ⟨h', hm⟩ => ?_)
      refine (ih (s := { s with network := net }) hrest h' htail).mono
        fun _ s₂ ⟨net₂, hs₂, hm₂, h₂⟩ => ⟨net₂, ?_, hm.trans hm₂, ?_⟩
      · subst hs₂
        rfl
      · rwa [hover] at h₂

/-! ## One fact -/

/-- What a session lists for one fact has changed, and what the sources show of it. -/
theorem Holds.change (h : Holds g s) {now : Option SourceFact} {facts : Table Fact.Key SourceFact}
    {net : Network kind} (hfacts : ∀ k', facts.get? k' = if k = k' then now else s.facts.get? k')
    (hentry : ∀ entry, now = some entry → entry.fact.key = k ∧
      entry.tuples.map Prod.fst = g.sourcesOf entry.fact.type ∧
      ∀ e ∈ entry.tuples, isVisible g e.1 entry.fact = .ok e.2.isSome)
    (hm : net.memories = s.network.memories) (hsourced : Network.Sourced g shown net)
    (hshown : ∀ p, shown k p = now.bind fun entry =>
      (Table.find p entry.tuples).join.map fun id => (id, entry.fact))
    (hother : ∀ k' p, k ≠ k' → shown k' p = s.shown k' p) :
    Holds g { s with network := net, facts } := by
  have hsame : Session.shown { s with network := net, facts } = shown := by
    funext k' p
    unfold Session.shown
    rw [hfacts]
    split
    · next hk => rw [← hk, hshown]
    · next hk => exact (hother k' p hk).symm
  refine ⟨h.graph, hsame ▸ hsourced, fun {k' entry} he => ?_, fun {k' entry} he => ?_,
    fun {k' entry e} he => ?_, ?_, h.named⟩
  · rw [hfacts] at he
    split at he
    · next hk => exact hk ▸ (hentry entry he).1
    · exact h.keyed he
  · rw [hfacts] at he
    split at he
    · exact (hentry entry he).2.1
    · exact h.listed he
  · rw [hfacts] at he
    split at he
    · exact (hentry entry he).2.2 e
    · exact h.visible he
  · intro name p n c hname hn hc
    unfold Network.weightAt
    rw [hm]
    exact h.weighed hname hn hc

/-- What is shown of a fact is shown by the tuples listed for it. -/
theorem Holds.shown_eq (h : Holds g s) {entry : SourceFact} (he : s.facts.get? k = some entry) :
    ∀ e ∈ entry.tuples, s.shown k e.1 = e.2.map fun id => (id, entry.fact) := by
  intro e hm
  have hnodup : (entry.tuples.map Prod.fst).Nodup := by
    rw [h.listed he]
    exact g.sourcesOf_nodup _
  unfold Session.shown
  rw [he, Option.bind_some, (Table.find_eq_some_iff hnodup).2 hm]
  rfl

/-- Facts of one key have one type. -/
theorem type_eq_of_key (h : fact.key = k) (h' : old.key = k) : fact.type = old.type :=
  congrArg Fact.Key.type (h.trans h'.symm)

theorem attach_spec (hE : Error.Tolerates E) (hsafe : g.Safe E) (h : Holds g s)
    (hnew : s.facts.get? fact.key = none) :
    Action.Ensures E (attach fact) s fun _ s' => Holds g s' ∧ s.network.Amends s'.network ∧
      ∀ k, (s'.facts.get? k).isSome = true ↔ fact.key = k ∨ (s.facts.get? k).isSome = true := by
  have hnone : ∀ p, s.shown fact.key p = none := fun p => by
    unfold Session.shown
    rw [hnew]
    rfl
  unfold attach
  rw [Action.ensures_bind, Action.ensures_get, Action.ensures_bind, h.graph]
  refine (attachAll_spec (k := fact.key) hE hsafe (fun _ hp => hp) (g.sourcesOf_nodup _) h.graph
    h.sourced fun p _ => hnone p).mono
    fun tuples s' ⟨net, hs', hfst, hvisible, hm, hsourced⟩ => ?_
  subst hs'
  rw [Action.ensures_modify]
  refine ⟨h.change (fun k' => Table.get?_insert s.facts fact.key k' _) ?_ hm.memories hsourced
    (fun p => ?_) fun k' p hk => ?_, hm, fun k => ?_⟩
  · rintro _ ⟨⟩
    exact ⟨rfl, hfst, hvisible⟩
  · unfold Shown.overlay
    rw [if_pos rfl, Option.bind_some]
    split
    · next tuple ht => rw [ht]; rfl
    · next ht => rw [ht, hnone]; rfl
  · unfold Shown.overlay
    rw [if_neg hk]
  · rw [Table.get?_insert]
    split
    · next hk => simp [hk]
    · next hk => simp [hk]

theorem refresh_spec (hE : Error.Admits E) (hsafe : g.Safe E) (h : Holds g s) :
    Action.Ensures E (refresh fact) s fun _ s' => Holds g s' ∧ s.network.Amends s'.network := by
  unfold refresh
  rw [Action.ensures_bind, Action.ensures_get]
  cases he : s.facts.get? fact.key with
  | none => exact hE.missing _ _
  | some entry =>
    have htype : fact.type = entry.fact.type := type_eq_of_key rfl (h.keyed he)
    have hlisted := h.listed he
    rw [← htype] at hlisted
    rw [Action.ensures_bind]
    have hentry : s.facts.get? fact.key = some ⟨entry.fact, [] ++ entry.tuples⟩ := he
    refine (refreshTuples_spec (s := s) (k := fact.key) hE.toTolerates hsafe h.graph rfl
      (fun e hm => hlisted ▸ List.mem_map_of_mem hm) (hlisted ▸ g.sourcesOf_nodup _) h.sourced
      (h.shown_eq he) hentry).mono
      fun _ s' ⟨net, facts, tuples, hs', hfst, hvisible, hm, hsourced, hfacts⟩ => ?_
    subst hs'
    rw [Action.ensures_modify]
    have hnew : ∀ entry', some (⟨fact, tuples⟩ : SourceFact) = some entry' →
        entry'.fact.key = fact.key ∧ entry'.tuples.map Prod.fst = g.sourcesOf entry'.fact.type ∧
          ∀ e ∈ entry'.tuples, isVisible g e.1 entry'.fact = .ok e.2.isSome := by
      rintro _ ⟨⟩
      exact ⟨rfl, hfst.trans hlisted, hvisible⟩
    refine ⟨h.change (k := fact.key) (fun k' => ?_) hnew hm.memories hsourced (fun p => ?_)
      fun k' p hk => ?_, hm⟩
    · rw [Table.get?_modify, hfacts, hfacts, if_pos rfl]
      split <;> simp_all
    · unfold Shown.overlay
      rw [if_pos rfl, Option.bind_some]
      split
      · next tuple ht => rw [ht]; rfl
      · next ht =>
        have hnone : Table.find p entry.tuples = none :=
          Table.find_eq_none_iff.2 (hfst ▸ Table.find_eq_none_iff.1 ht)
        unfold Session.shown
        rw [he, ht, Option.bind_some, hnone]
        rfl
    · unfold Shown.overlay
      rw [if_neg hk]

theorem detach_spec (h : Holds g s) :
    Action.Ensures E (detach k) s fun _ s' => Holds g s' ∧ s.network.Amends s'.network := by
  unfold detach
  rw [Action.ensures_bind, Action.ensures_get]
  cases he : s.facts.get? k with
  | none => exact ⟨h, .refl _⟩
  | some entry =>
    have hnodup : (entry.tuples.map Prod.fst).Nodup := by
      rw [h.listed he]
      exact g.sourcesOf_nodup _
    rw [Action.ensures_bind, Action.ensures_set]
    refine (withdrawAll_spec (s := { s with facts := s.facts.erase k }) hnodup h.sourced
      (h.shown_eq he)).mono fun _ s' ⟨net, hs', hm, hsourced⟩ => ?_
    subst hs'
    have hblank : ∀ es : List (NodeId × Option TupleId),
        (es.map fun e => ((e.1, none) : NodeId × Option TupleId)).map Prod.fst = es.map Prod.fst := by
      intro es
      rw [List.map_map]
      rfl
    refine ⟨h.change (fun k' => Table.get?_erase s.facts k k') (fun _ he => (nomatch he)) hm.memories
      hsourced (fun p => ?_) fun k' p hk => ?_, hm⟩
    · unfold Shown.overlay
      rw [if_pos rfl]
      split
      · next tuple ht =>
        obtain ⟨e, -, heq⟩ := List.mem_map.1
          ((Table.find_eq_some_iff (by rw [hblank]; exact hnodup)).1 ht)
        cases heq
        rfl
      · next ht =>
        have hnone : Table.find p entry.tuples = none := by
          rw [Table.find_eq_none_iff] at ht ⊢
          rwa [hblank] at ht
        unfold Session.shown
        rw [he, Option.bind_some, hnone]
        rfl
    · unfold Shown.overlay
      rw [if_neg hk]

end Session

end ConstraintStreams
