import ConstraintStreams.Proofs.Graph.Routes
import ConstraintStreams.Proofs.Network.Memory
import ConstraintStreams.Proofs.Network.Trace

/-!
# What the nodes of a network know

`Knowledge` is ghost state: what was told over each link about each tuple, and whether that is still
current. A network is coherent with it when the agenda is sound and every node holds what follows
from what it was told. `InStep` says of one link and one tuple that what was told over the link is
what the node before it shows; between flushes all links are in step.
-/

namespace ConstraintStreams

/-- The children of the node of a tuple see it as it is. -/
def Agenda.Settled (g : Agenda) (id : TupleId) : Prop :=
  ∃ t, g.find? id = some t ∧ t.stage = .settled

/-- What was told over the links of a graph. -/
structure Knowledge where
  /-- The facts that a tuple had when something about it was last told over a link. -/
  told : Link → TupleId → Option Facts
  /-- That was told since the tuple was last settled. -/
  synced : Link → TupleId → Prop

namespace Knowledge

variable {kind : ScoreKind}

/-- Nothing was told. -/
def blank : Knowledge := ⟨fun _ _ => none, fun _ _ => False⟩

/-- What a node knows of the tuples of its parents. -/
def view (K : Knowledge) (s : Traced kind) (p : NodeId) : View where
  told side u := K.told ⟨p, side⟩ u
  fresh side u := K.synced ⟨p, side⟩ u ∧ s.net.agenda.Settled u
  recent side u := ⟨⟨p, side⟩, u⟩ ∈ s.trace

/-- What was told after a signal went over a link. -/
def after (K : Knowledge) (signal : Signal) (link : Link) (id : TupleId) (facts : Facts) :
    Knowledge where
  told l x := if link = l ∧ id = x then (if signal = .retract then none else some facts)
    else K.told l x
  synced l x := if link = l ∧ id = x then signal ≠ .retract else K.synced l x

/-- A tuple is about to be told of anew. -/
def unsync (K : Knowledge) (id : TupleId) : Knowledge where
  told := K.told
  synced l x := id ≠ x ∧ K.synced l x

/-- These facts of a tuple were told over a link, all is current, and none of it was delivered in the
flush. -/
def Untouched (K : Knowledge) (s : Traced kind) (l : Link) (u : TupleId) (facts : Facts) : Prop :=
  K.told l u = some facts ∧ K.synced l u ∧ ⟨l, u⟩ ∉ s.trace

end Knowledge

namespace Network

variable {kind : ScoreKind}

/-- The tuples that a node lets pass; none where it is no filter. -/
def passedAt (net : Network kind) (p : NodeId) : List TupleId :=
  ((net.memories.get? p).map NodeMemory.passed).getD []

/-- A node shows a tuple to its children: one of its own that they know of, or one that it lets
pass. -/
def Shows (net : Network kind) (p : NodeId) (u : TupleId) : Prop :=
  (∃ t, net.agenda.find? u = some t ∧ t.node = p ∧ t.stage.isSeen = true) ∨ u ∈ net.passedAt p

/-- The weight in force at a constraint. -/
def weightAt (net : Network kind) (p : NodeId) : Option (Score kind) :=
  (net.memories.get? p).bind NodeMemory.weight?

end Network

/-- The network is coherent with what was told in it, and with what it was when the flush began. The
tuples of `away` were taken out of their queue. -/
structure Coherent {kind : ScoreKind} (g : Graph kind) (past : Network kind) (away : List TupleId)
    (K : Knowledge) (s : Traced kind) : Prop where
  sound : s.net.agenda.Sound away
  registered : ∀ p, (s.net.agenda.queues.get? p).isSome = true ↔
    ∃ n, g.nodes.get? p = some n ∧ n.operator.ownsTuples = true
  memory : ∀ {p n}, g.nodes.get? p = some n → ∃ m m₀, s.net.memories.get? p = some m ∧
    past.memories.get? p = some m₀ ∧
    m.Valid n.operator (K.view s p) (s.net.agenda.openAt p) ∧
    NodeMemory.Since n.operator m₀ (past.agenda.openAt p) (K.view s p) (s.net.agenda.openAt p) m
  feeds : ∀ {l u facts}, K.told l u = some facts → ∃ t, s.net.agenda.find? u = some t ∧
    g.Carries t.node l ∧ (K.synced l u → t.stage = .settled → t.facts = facts)

/-- What was told of a tuple over a link is what the node before it shows. -/
structure InStep {kind : ScoreKind} (K : Knowledge) (net : Network kind) (p : NodeId) (l : Link)
    (u : TupleId) : Prop where
  held : (K.told l u).isSome = true ↔ net.Shows p u
  synced : (K.told l u).isSome = true → net.agenda.Settled u → K.synced l u

/-! ## Work of one node -/

namespace Agenda

variable {g g' : Agenda} {node p : NodeId} {moving : NodeId → Prop} {u : TupleId} {t : Tuple}

/-- A tuple that is settled afterwards was there before, just so. -/
theorem Drifts.settled_eq (h : Drifts moving g g') (ht : g'.find? u = some t)
    (hstage : t.stage = .settled) : g.find? u = some t := by
  cases hu : g.find? u with
  | none =>
    have := (h.fresh hu ht).2.1
    rw [hstage] at this
    cases this
  | some t₀ => exact hu ▸ h.settled_inv ⟨t₀, hu⟩ ht hstage

/-- A tuple that is settled afterwards was so before. -/
theorem Drifts.settled (h : Drifts moving g g') (hs : g'.Settled u) : g.Settled u := by
  obtain ⟨t, ht, hstage⟩ := hs
  exact ⟨t, h.settled_eq ht hstage, hstage⟩

/-- A tuple is of a node that moves, or it was there before, just so. -/
theorem Drifts.moved_or_eq (h : Drifts moving g g') (ht : g'.find? u = some t) :
    moving t.node ∨ g.find? u = some t := by
  cases hu : g.find? u with
  | none => exact .inl (h.fresh hu ht).1
  | some t₀ =>
    obtain ⟨t', ht', hnode, -, rfl | ⟨hm, -⟩⟩ := h.old hu
    · exact .inr (ht'.symm.trans ht)
    · cases ht.symm.trans ht'
      exact .inl (hnode ▸ hm)

/-- A tuple lives on at its node, and as it was if it is settled. -/
theorem Drifts.kept (h : Drifts moving g g') (ht : g.find? u = some t) :
    ∃ t', g'.find? u = some t' ∧ t'.node = t.node ∧ (t'.stage = .settled → t' = t) := by
  obtain ⟨t', ht', hnode, -, rfl | ⟨-, hs, -⟩⟩ := h.old ht
  · exact ⟨t', ht', rfl, fun _ => rfl⟩
  · exact ⟨t', ht', hnode, fun h => absurd h hs⟩

/-- The nodes that do not move see their tuples as before. -/
theorem Drifts.openAt_eq (h : Drifts moving g g') (hp : ¬ moving p) : g'.openAt p = g.openAt p := by
  funext u
  unfold openAt
  cases hu : g.find? u with
  | none =>
    cases hu' : g'.find? u with
    | none => rfl
    | some t' =>
      have hne : t'.node ≠ p := fun he => hp (he ▸ (h.fresh hu hu').1)
      simp [hne]
  | some t =>
    obtain ⟨t', ht', hnode, -, rfl | ⟨hm, -⟩⟩ := h.old hu
    · rw [ht']
    · have hne : t.node ≠ p := fun he => hp (he ▸ hm)
      simp [ht', hne, hnode]

/-- A node shows a tuple of its own after some work exactly if it did before. -/
theorem Drifts.seen_iff (h : Drifts moving g g') :
    (∃ t, g'.find? u = some t ∧ t.node = p ∧ t.stage.isSeen = true) ↔
      ∃ t, g.find? u = some t ∧ t.node = p ∧ t.stage.isSeen = true := by
  cases hu : g.find? u with
  | none =>
    simp only [reduceCtorEq, false_and, exists_false, iff_false]
    rintro ⟨t', ht', -, hseen⟩
    rw [(h.fresh hu ht').2.1] at hseen
    cases hseen
  | some t =>
    obtain ⟨t', ht', hnode, -, hkept⟩ := h.old hu
    have hseen : t'.stage.isSeen = t.stage.isSeen := by
      rcases hkept with rfl | ⟨-, -, hs⟩
      · rfl
      · exact hs
    simp [ht', hnode, hseen]

end Agenda

namespace NodeMemory

variable {kind : ScoreKind} {op : Operator kind} {v : View}
  {out : TupleId → Option (Facts × Sources)} {m : NodeMemory kind}

/-- Only filters let anything pass. -/
theorem Valid.exists_filter {u : TupleId} (h : m.Valid op v out) (hu : u ∈ m.passed) :
    ∃ f, op = .filter f := by
  cases m with
  | filter m => cases op <;> first | exact ⟨_, rfl⟩ | exact h.elim
  | _ => cases hu

/-- A filter lets pass what it was told about. -/
theorem Valid.held_of_passed {u : TupleId} (h : m.Valid op v out) (hu : u ∈ m.passed) :
    v.Held .only u := by
  cases m with
  | filter m => cases op <;> first | exact FilterMemory.Valid.held h hu | exact h.elim
  | _ => cases hu

end NodeMemory

namespace Network.Acted

variable {kind : ScoreKind} {op : Operator kind} {m₀ m m' : NodeMemory kind} {net net' : Network kind}
  {pastOut : TupleId → Option (Facts × Sources)} {v : View} {p q : NodeId} {away : List TupleId}

theorem weightAt (h : Acted p away op m₀ pastOut v m m' net net') (hm : net.memories.get? p = some m)
    (q : NodeId) : net'.weightAt q = net.weightAt q := by
  unfold Network.weightAt
  rw [h.memories]
  split
  · next he => subst he; rw [hm]; exact h.weight
  · rfl

theorem passedAt_self (h : Acted p away op m₀ pastOut v m m' net net') :
    net'.passedAt p = m'.passed := by
  simp [passedAt, h.memories]

theorem passedAt_of_ne (h : Acted p away op m₀ pastOut v m m' net net') (hne : p ≠ q) :
    net'.passedAt q = net.passedAt q := by
  simp [passedAt, h.memories, hne]

/-- What the other nodes show is as it was. -/
theorem shows_of_ne (h : Acted p away op m₀ pastOut v m m' net net') (hne : p ≠ q) (u : TupleId) :
    net'.Shows q u ↔ net.Shows q u :=
  or_congr h.evolves.seen_iff (h.passedAt_of_ne hne ▸ Iff.rfl)

end Network.Acted

namespace Coherent

variable {kind : ScoreKind} {g : Graph kind} {past : Network kind} {away : List TupleId}
  {K K' : Knowledge} {s s' : Traced kind} {p q : NodeId} {n : Node kind} {m m' m₀ : NodeMemory kind}
  {v' : View} {l : Link} {u : TupleId} {t : Tuple}

theorem queue_of_owns (h : Coherent g past away K s) (hn : g.nodes.get? p = some n)
    (ho : n.operator.ownsTuples = true) : ∃ queue, s.net.agenda.queues.get? p = some queue :=
  Option.isSome_iff_exists.1 ((h.registered p).2 ⟨n, hn, ho⟩)

/-- A live tuple is one of a node that owns tuples. -/
theorem owner (h : Coherent g past away K s) (ht : s.net.agenda.find? u = some t) :
    ∃ n, g.nodes.get? t.node = some n ∧ n.operator.ownsTuples = true := by
  obtain ⟨queue, hq⟩ := h.sound.registered ht
  exact (h.registered t.node).1 (by rw [hq]; rfl)

/-- The inputs of a node are tuples of nodes below it. -/
theorem feeds_view (hg : g.WellFormed) (h : Coherent g past away K s) (p : NodeId) :
    s.net.agenda.Feeds p (K.view s p) := by
  intro side input facts htold
  obtain ⟨t, ht, hcarries, hfacts⟩ := h.feeds htold
  refine ⟨t, ht, hg.carries_ne hcarries, fun hfresh => ?_⟩
  obtain ⟨hsynced, t', ht', hstage⟩ := hfresh
  rw [ht] at ht'
  cases ht'
  exact hfacts hsynced hstage

/-- A network stays coherent when one node works on its memory and its tuples. -/
theorem act (h : Coherent g past away K s) (hn : g.nodes.get? p = some n)
    (hm₀ : past.memories.get? p = some m₀)
    (hacted : Network.Acted p away n.operator m₀ (past.agenda.openAt p) v' m m' s.net s'.net)
    (hview : View.Fades v' (K'.view s' p)) (hrecent : (K'.view s' p).recent = v'.recent)
    (hknown : ∀ l u, l.node ≠ p → K'.told l u = K.told l u ∧ (K'.synced l u → K.synced l u))
    (htrace : ∀ l u, l.node ≠ p → (⟨l, u⟩ ∈ s'.trace ↔ ⟨l, u⟩ ∈ s.trace))
    (hfeeds : ∀ l u facts, l.node = p → K'.told l u = some facts →
      ∃ t, s.net.agenda.find? u = some t ∧ g.Carries t.node l ∧
        (K'.synced l u → t.stage = .settled → t.facts = facts)) :
    Coherent g past away K' s' where
  sound := hacted.sound
  registered q := by rw [hacted.evolves.registered q]; exact h.registered q
  memory := by
    intro q nq hq
    by_cases hqp : p = q
    · subst hqp
      rw [hn] at hq
      cases hq
      exact ⟨m', m₀, by rw [hacted.memories, if_pos rfl], hm₀, hacted.valid.fades hview,
        hacted.since.fades hview hrecent⟩
    · obtain ⟨mq, mq₀, hmq, hmq₀, hvalid, hsince⟩ := h.memory hq
      have hne : ∀ side, (⟨q, side⟩ : Link).node ≠ p := fun _ => Ne.symm hqp
      have hfades : View.Fades (K.view s q) (K'.view s' q) :=
        { told := funext fun side => funext fun u => (hknown _ u (hne side)).1
          fresh := fun {side u} hf =>
            ⟨(hknown _ u (hne side)).2 hf.1, hacted.evolves.settled hf.2⟩ }
      have hsame : (K'.view s' q).recent = (K.view s q).recent :=
        funext fun side => funext fun u => propext (htrace _ u (hne side))
      have hopen : s'.net.agenda.openAt q = s.net.agenda.openAt q :=
        hacted.evolves.openAt_eq (Ne.symm hqp)
      refine ⟨mq, mq₀, by rw [hacted.memories, if_neg hqp, hmq], hmq₀, ?_, ?_⟩
      · rw [hopen]
        exact hvalid.fades hfades
      · rw [hopen]
        exact hsince.fades hfades hsame
  feeds := by
    intro l u facts htold
    obtain ⟨t, ht, hcarries, hfacts⟩ : ∃ t, s.net.agenda.find? u = some t ∧ g.Carries t.node l ∧
        (K'.synced l u → t.stage = .settled → t.facts = facts) := by
      by_cases hl : l.node = p
      · exact hfeeds l u facts hl htold
      · rw [(hknown l u hl).1] at htold
        obtain ⟨t, ht, hcarries, hfacts⟩ := h.feeds htold
        exact ⟨t, ht, hcarries, fun hs => hfacts ((hknown l u hl).2 hs)⟩
    obtain ⟨t', ht', hnode, hsame⟩ := hacted.evolves.kept ht
    refine ⟨t', ht', hnode ▸ hcarries, fun hs hstage => ?_⟩
    obtain rfl := hsame hstage
    exact hfacts hs hstage

/-- Only filters let anything pass, and only what they were told about. -/
theorem of_passed (h : Coherent g past away K s) (hn : g.nodes.get? p = some n)
    (hu : u ∈ s.net.passedAt p) :
    (∃ f, n.operator = .filter f) ∧ (K.told ⟨p, .only⟩ u).isSome = true := by
  obtain ⟨m, -, hm, -, hvalid, -⟩ := h.memory hn
  rw [Network.passedAt, hm, Option.map_some, Option.getD_some] at hu
  exact ⟨hvalid.exists_filter hu, hvalid.held_of_passed hu⟩

/-- A node that owns tuples shows those of its tuples that its children know of. -/
theorem shows_owner (h : Coherent g past away K s) (hn : g.nodes.get? p = some n)
    (ho : n.operator.ownsTuples = true) :
    s.net.Shows p u ↔ ∃ t, s.net.agenda.find? u = some t ∧ t.node = p ∧ t.stage.isSeen = true := by
  refine or_iff_left fun hu => ?_
  obtain ⟨⟨f, hf⟩, -⟩ := h.of_passed hn hu
  rw [hf] at ho
  cases ho

/-- A filter shows what passes. -/
theorem shows_filter (h : Coherent g past away K s) (hn : g.nodes.get? p = some n)
    (hf : ∃ f, n.operator = .filter f) : s.net.Shows p u ↔ u ∈ s.net.passedAt p := by
  refine or_iff_right ?_
  rintro ⟨t, ht, rfl, -⟩
  obtain ⟨n', hn', ho⟩ := h.owner ht
  rw [hn] at hn'
  cases hn'
  obtain ⟨f, hf⟩ := hf
  rw [hf] at ho
  cases ho

end Coherent

end ConstraintStreams
