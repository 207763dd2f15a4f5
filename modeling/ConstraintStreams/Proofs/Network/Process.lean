import ConstraintStreams.Proofs.Network.Delivery
import ConstraintStreams.Proofs.Tuple.Drain

/-!
# Letting the children see a tuple

A tuple that was taken out of its queue is settled or released, and its children are told. All links
but its own stay in step meanwhile; `Progress` says so, and what the record of deliveries says about
the tuples.
-/

namespace ConstraintStreams

namespace Coherent

variable {kind : ScoreKind} {g : Graph kind} {past : Network kind} {away away' rest : List TupleId}
  {K K' : Knowledge} {s : Traced kind} {u : TupleId} {t : Tuple} {agenda : Agenda}

/-- A network stays coherent when its agenda changes in a way that no node notices. -/
theorem move (h : Coherent g past away K s) (hsound : agenda.Sound away')
    (hqueues : ∀ p, (agenda.queues.get? p).isSome = (s.net.agenda.queues.get? p).isSome)
    (hopen : ∀ p, agenda.openAt p = s.net.agenda.openAt p) (htold : K'.told = K.told)
    (hfresh : ∀ l x, K'.synced l x → agenda.Settled x → K.synced l x ∧ s.net.agenda.Settled x)
    (hfeeds : ∀ l x t, (K.told l x).isSome = true → s.net.agenda.find? x = some t →
      ∃ t', agenda.find? x = some t' ∧ t'.node = t.node ∧
        (K'.synced l x → t'.stage = .settled → t' = t)) :
    Coherent g past away' K' { s with net := { s.net with agenda } } where
  sound := hsound
  registered p := by rw [show _ = _ from hqueues p]; exact h.registered p
  memory := by
    intro p n hn
    obtain ⟨m, m₀, hm, hm₀, hvalid, hsince⟩ := h.memory hn
    have hfades : View.Fades (K.view s p) (K'.view { s with net := { s.net with agenda } } p) :=
      { told := funext fun side => funext fun x => by simp [Knowledge.view, htold]
        fresh := fun hf => hfresh _ _ hf.1 hf.2 }
    refine ⟨m, m₀, hm, hm₀, ?_, ?_⟩
    · show m.Valid _ _ (agenda.openAt p)
      rw [hopen]
      exact hvalid.fades hfades
    · show NodeMemory.Since _ _ _ _ (agenda.openAt p) m
      rw [hopen]
      exact hsince.fades hfades rfl
  feeds := by
    intro l x facts hx
    rw [htold] at hx
    obtain ⟨t, ht, hcarries, hfacts⟩ := h.feeds hx
    obtain ⟨t', ht', hnode, hsame⟩ := hfeeds l x t (by rw [hx]; rfl) ht
    refine ⟨t', ht', hnode ▸ hcarries, fun hs hstage => ?_⟩
    obtain rfl := hsame hs hstage
    exact hfacts (hfresh l x hs ⟨t', ht', hstage⟩).1 hstage

/-- Settling a tuple that was not withdrawn, before anything is told of it. -/
theorem settle (h : Coherent g past away K s) (ht : s.net.agenda.find? u = some t)
    (hstage : t.stage.isOpen = true) (hsound : agenda.Sound away')
    (hfind : ∀ x, agenda.find? x = if u = x then some { t with stage := .settled }
      else s.net.agenda.find? x)
    (hqueues : agenda.queues = s.net.agenda.queues) :
    Coherent g past away' (K.unsync u) { s with net := { s.net with agenda } } := by
  refine h.move hsound (fun p => by rw [hqueues]) (Agenda.openAt_settle ht hstage hfind) rfl ?_ ?_
  · rintro l x ⟨hne, hsynced⟩ ⟨t', ht', hs⟩
    rw [hfind, if_neg hne] at ht'
    exact ⟨hsynced, t', ht', hs⟩
  · intro l x t' _ ht'
    rw [hfind]
    split
    · next he =>
      subst he
      rw [ht] at ht'
      cases ht'
      exact ⟨_, rfl, rfl, fun hsynced => absurd rfl hsynced.1⟩
    · exact ⟨t', ht', rfl, fun _ _ => rfl⟩

/-- Releasing a tuple that was withdrawn and that nothing is told of any more. -/
theorem release (h : Coherent g past away K s) (ht : s.net.agenda.find? u = some t)
    (hstage : t.stage.isOpen = false) (huntold : ∀ l, K.told l u = none)
    (hsound : agenda.Sound away')
    (hfind : ∀ x, agenda.find? x = if u = x then none else s.net.agenda.find? x)
    (hqueues : agenda.queues = s.net.agenda.queues) :
    Coherent g past away' K { s with net := { s.net with agenda } } := by
  refine h.move hsound (fun p => by rw [hqueues]) (Agenda.openAt_release ht hstage hfind) rfl ?_ ?_
  · rintro l x hsynced ⟨t', ht', hs⟩
    rw [hfind] at ht'
    split at ht'
    · cases ht'
    · exact ⟨hsynced, t', ht', hs⟩
  · intro l x t' htold ht'
    rw [hfind]
    split
    · next he =>
      subst he
      rw [huntold] at htold
      cases htold
    · exact ⟨t', ht', rfl, fun _ _ => rfl⟩

/-- Over a link that does not carry the tuples of its node, nothing is told of a tuple. -/
theorem told_eq_none (h : Coherent g past away K s) (ht : s.net.agenda.find? u = some t) {l : Link}
    (hc : ¬ g.Carries t.node l) : K.told l u = none := by
  rw [Option.eq_none_iff_forall_not_mem]
  intro facts htold
  obtain ⟨t', ht', hcarries, -⟩ := h.feeds htold
  rw [ht] at ht'
  cases ht'
  exact hc hcarries

/-- A node shows a tuple only over links that carry the tuples of its node. -/
theorem carries_of_shows (h : Coherent g past away K s) (ht : s.net.agenda.find? u = some t)
    {p : NodeId} {l : Link} (hl : g.Leads p l) (hshows : s.net.Shows p u) : g.Carries t.node l := by
  obtain ⟨n, hn, hmem⟩ := hl
  obtain ⟨t', ht', rfl, -⟩ | hpassed := hshows
  · rw [ht] at ht'
    cases ht'
    obtain ⟨n', hn', ho⟩ := h.owner ht
    rw [hn] at hn'
    cases hn'
    exact ⟨n, l, hn, ho, hmem, .refl⟩
  · obtain ⟨⟨f, hf⟩, htold⟩ := h.of_passed hn hpassed
    obtain ⟨facts, hfacts⟩ := Option.isSome_iff_exists.1 htold
    obtain ⟨t', ht', ⟨n', c, hn', ho, hc, hb⟩, -⟩ := h.feeds hfacts
    rw [ht] at ht'
    cases ht'
    exact ⟨n', c, hn', ho, hc, hb.step ⟨n, f, hn, hf, hmem⟩⟩

end Coherent

/-- Where nothing is told of a tuple that is not shown, either, a link is in step. -/
theorem InStep.of_untold {kind : ScoreKind} {K : Knowledge} {net : Network kind} {p : NodeId}
    {l : Link} {u : TupleId} (huntold : K.told l u = none) (hhidden : ¬ net.Shows p u) :
    InStep K net p l u where
  held := by
    rw [huntold]
    exact iff_of_false (by simp) hhidden
  synced htold := by
    rw [huntold] at htold
    cases htold

namespace Traced

variable {kind : ScoreKind}

/-- How far a flush has got: but for the tuples `busy`, all links are in step, and the record speaks of
tuples of the nodes `done` that are settled, or of tuples that are gone. The tuples that were there at
the beginning still are, but for those of the nodes `done`; and those that nothing was delivered about
were settled. -/
structure Progress (g : Graph kind) (past : Network kind) (done : List NodeId)
    (busy : TupleId → Prop) (K : Knowledge) (s : Traced kind) : Prop where
  inStep : ∀ {p l x}, ¬ busy x → g.Leads p l → InStep K s.net p l x
  traced : ∀ {l x}, ⟨l, x⟩ ∈ s.trace → ¬ busy x →
    (∃ t, s.net.agenda.find? x = some t ∧ t.stage = .settled ∧ t.node ∈ done) ∨
    s.net.agenda.find? x = none ∧ x.generation < s.net.agenda.tuples.generation
  lasting : ∀ {o t}, past.agenda.find? o = some t → t.node ∉ done →
    ∃ t', s.net.agenda.find? o = some t' ∧ t'.node = t.node
  untouched : ∀ {l x facts}, K.Untouched s l x facts →
    ∃ t, past.agenda.find? x = some t ∧ t.stage = .settled ∧ t.facts = facts

/-- What work on the tuple `u` of a node leaves to the nodes that are not above it, and to those that no
link leads to. -/
structure Spares (g : Graph kind) (k : Nat) (u : TupleId) (net net' : Network kind) : Prop where
  memories : ∀ q, g.layerOf q ≤ k → net'.memories.get? q = net.memories.get? q
  queues : ∀ q, g.layerOf q ≤ k → net'.agenda.queues.get? q = net.agenda.queues.get? q
  tuples : ∀ {x t}, x ≠ u → net.agenda.find? x = some t → g.layerOf t.node ≤ k →
    net'.agenda.find? x = some t
  behind : ∀ q, g.layerOf q ≤ k → net'.agenda.openAt q = net.agenda.openAt q
  opens : ∀ q, (∀ p l, g.Leads p l → l.node ≠ q) → net'.agenda.openAt q = net.agenda.openAt q
  weights : ∀ q, net'.weightAt q = net.weightAt q

variable {g : Graph kind} {past : Network kind} {away rest : List TupleId} {E : Error → Prop}
  {K K' : Knowledge} {s s' : Traced kind} {on : Link → Prop} {done : List NodeId}
  {busy : TupleId → Prop} {p : NodeId} {l : Link} {u x : TupleId} {t : Tuple} {signal : Signal}
  {k : Nat}

/-- Progress lasts while nodes that are not yet drained change their tuples. -/
theorem Progress.drift (h : Progress g past done busy K s) {moving : NodeId → Prop}
    (hdrifts : Agenda.Drifts moving s.net.agenda s'.net.agenda) (hoff : ∀ q, moving q → q ∉ done)
    (hstep : ∀ {p l x}, ¬ busy x → g.Leads p l → InStep K s.net p l x → InStep K' s'.net p l x)
    (htrace : ∀ {l x}, ⟨l, x⟩ ∈ s'.trace → ⟨l, x⟩ ∈ s.trace ∨ busy x)
    (huntouched : ∀ {l x facts}, K'.Untouched s' l x facts → K.Untouched s l x facts) :
    Progress g past done busy K' s' where
  inStep hx hl := hstep hx hl (h.inStep hx hl)
  traced := by
    intro l x hd hx
    rcases htrace hd with hd | hbusy
    · rcases h.traced hd hx with ⟨t, ht, hs, hnode⟩ | ⟨hnone, hlt⟩
      · exact .inl ⟨t, hdrifts.other ht fun hm => hoff _ hm hnode, hs, hnode⟩
      · refine .inr ⟨?_, by rw [hdrifts.generation]; exact hlt⟩
        rw [Option.eq_none_iff_forall_not_mem]
        intro t' ht'
        have := (hdrifts.fresh hnone ht').2.2
        omega
    · exact absurd hbusy hx
  lasting ho hnode := by
    obtain ⟨t', ht', hn'⟩ := h.lasting ho hnode
    obtain ⟨t'', ht'', hn'', -⟩ := hdrifts.old ht'
    exact ⟨t'', ht'', hn''.trans hn'⟩
  untouched hx := h.untouched (huntouched hx)

theorem Progress.frame (h : Progress g past done busy K s) (hframe : Frame g u on K s K' s')
    (hoff : ∀ l, on l → l.node ∉ done) (hbusy : busy u) : Progress g past done busy K' s' := by
  refine h.drift hframe.drifts (fun q ⟨l, hl, he⟩ => he ▸ hoff l hl) ?_ ?_ hframe.untouched
  · intro p l x hx hl
    exact hframe.inStep hl fun he => hx (he.1 ▸ hbusy)
  · intro l x hd
    exact (hframe.trace hd).imp_right fun ⟨hx, _⟩ => hx ▸ hbusy

theorem Frame.spares (h : Frame g u on K s K' s') (hon : ∀ l, on l → k < g.layerOf l.node)
    (hleads : ∀ l, on l → ∃ p, g.Leads p l) : Spares g k u s.net s'.net where
  memories q hq := h.memories q fun l hl he => by
    have := hon l hl
    rw [he] at this
    omega
  queues q hq := h.drifts.queues q fun ⟨l, hl, he⟩ => by
    have := hon l hl
    rw [he] at this
    omega
  tuples _ ht hle := h.drifts.other ht fun ⟨l, hl, he⟩ => by
    have := hon l hl
    rw [he] at this
    omega
  behind q hq := h.drifts.openAt_eq fun ⟨l, hl, he⟩ => by
    have := hon l hl
    rw [he] at this
    omega
  opens q hq := h.drifts.openAt_eq fun ⟨l, hl, he⟩ => by
    obtain ⟨p, hp⟩ := hleads l hl
    exact hq p l hp he
  weights := h.weights

theorem Spares.trans {net net' net'' : Network kind} (h : Spares g k u net net')
    (h' : Spares g k u net' net'') : Spares g k u net net'' where
  memories q hq := (h'.memories q hq).trans (h.memories q hq)
  queues q hq := (h'.queues q hq).trans (h.queues q hq)
  tuples hx ht hle := h'.tuples hx (h.tuples hx ht hle) hle
  behind q hq := (h'.behind q hq).trans (h.behind q hq)
  opens q hq := (h'.opens q hq).trans (h.opens q hq)
  weights q := (h'.weights q).trans (h.weights q)

/-- Dealing with a tuple in the agenda touches no other. -/
theorem Spares.of_find {net : Network kind} {agenda : Agenda} {e : Option Tuple}
    (hfind : ∀ x, agenda.find? x = if u = x then e else net.agenda.find? x)
    (hqueues : agenda.queues = net.agenda.queues)
    (hopen : ∀ q, agenda.openAt q = net.agenda.openAt q) : Spares g k u net { net with agenda } where
  memories _ _ := rfl
  queues q _ := by show agenda.queues.get? q = _; rw [hqueues]
  tuples hx ht _ := by
    show agenda.find? _ = _
    rw [hfind, if_neg (Ne.symm hx), ht]
  behind q _ := hopen q
  opens q _ := hopen q
  weights _ := rfl

theorem Progress.start (h : Progress g past done (fun _ => False) K s) (u : TupleId) :
    Progress g past done (· = u) K s where
  inStep _ hl := h.inStep (fun hf => hf) hl
  traced hd _ := h.traced hd fun hf => hf
  lasting := h.lasting
  untouched := h.untouched

/-- Progress when the tuple `u` is settled or released. -/
theorem Progress.dealWith (h : Progress g past done (· = u) K s)
    (ht : s.net.agenda.find? u = some t) (hdone : t.node ∈ done) {agenda : Agenda} {e : Option Tuple}
    (hfind : ∀ x, agenda.find? x = if u = x then e else s.net.agenda.find? x)
    (hgeneration : s.net.agenda.tuples.generation ≤ agenda.tuples.generation)
    (htold : K'.told = K.told) (hsynced : ∀ l x, u ≠ x → (K'.synced l x ↔ K.synced l x))
    (hle : ∀ l x, K'.synced l x → K.synced l x) :
    Progress g past done (· = u) K' { s with net := { s.net with agenda } } where
  inStep := by
    intro p l x hx hl
    have hxu : u ≠ x := Ne.symm hx
    have hfindx : agenda.find? x = s.net.agenda.find? x := (hfind x).trans (if_neg hxu)
    have hin := h.inStep hx hl
    constructor
    · rw [htold, hin.held]
      refine or_congr_left ?_
      show _ ↔ ∃ t, agenda.find? x = some t ∧ _
      rw [hfindx]
    · rintro hk ⟨t', ht', hs⟩
      rw [htold] at hk
      rw [show _ = _ from hfindx] at ht'
      exact (hsynced l x hxu).2 (hin.synced hk ⟨t', ht', hs⟩)
  traced := by
    intro l x hd hx
    have hfindx : agenda.find? x = s.net.agenda.find? x := (hfind x).trans (if_neg (Ne.symm hx))
    show (∃ t, agenda.find? x = some t ∧ _) ∨ agenda.find? x = none ∧ _
    rw [hfindx]
    exact (h.traced hd hx).imp_right fun ⟨hnone, hlt⟩ =>
      ⟨hnone, Nat.lt_of_lt_of_le hlt hgeneration⟩
  lasting := by
    intro o t' ho hnode
    obtain ⟨t'', ht'', hn⟩ := h.lasting ho hnode
    have hne : u ≠ o := by
      rintro rfl
      rw [ht] at ht''
      cases ht''
      exact hnode (hn ▸ hdone)
    exact ⟨t'', (hfind o).trans ((if_neg hne).trans ht''), hn⟩
  untouched hx := h.untouched ⟨htold ▸ hx.1, hle _ _ hx.2.1, hx.2.2⟩

/-- Progress once the tuple `u` is dealt with, too. -/
theorem Progress.finish (h : Progress g past done (· = u) K s)
    (hstep : ∀ p l, g.Leads p l → InStep K s.net p l u)
    (hend : (∃ t, s.net.agenda.find? u = some t ∧ t.stage = .settled ∧ t.node ∈ done) ∨
      s.net.agenda.find? u = none ∧ u.generation < s.net.agenda.tuples.generation) :
    Progress g past done (fun _ => False) K s where
  inStep := by
    intro p l x _ hl
    by_cases hx : x = u
    · exact hx ▸ hstep p l hl
    · exact h.inStep hx hl
  traced := by
    intro l x hd _
    by_cases hx : x = u
    · exact hx ▸ hend
    · exact h.traced hd hx
  lasting := h.lasting
  untouched := h.untouched

/-- What holds while the tuple `u` of a node is dealt with. -/
structure Turn (g : Graph kind) (past : Network kind) (done : List NodeId) (rest : List TupleId)
    (u : TupleId) (t : Tuple) (n : Node kind) (K : Knowledge) (s : Traced kind) : Prop where
  coherent : Coherent g past (u :: rest) K s
  progress : Progress g past done (fun _ => False) K s
  found : s.net.agenda.find? u = some t
  node : g.nodes.get? t.node = some n
  owns : n.operator.ownsTuples = true
  drained : t.node ∈ done
  above : ∀ q ∈ done, g.layerOf q ≤ g.layerOf t.node

namespace Turn

variable {n : Node kind} {agenda : Agenda}

theorem dirty (h : Turn g past done rest u t n K s) : t.stage.isDirty = true :=
  (h.coherent.sound.dirty_iff h.found).2 (.inl List.mem_cons_self)

theorem present (h : Turn g past done rest u t n K s) : Present g past u t s where
  found := h.found
  lasting ho hlt := h.progress.lasting ho fun hd => by
    have := h.above _ hd
    omega

theorem off_done (h : Turn g past done rest u t n K s) (hg : g.WellFormed) (hl : g.Carries t.node l) :
    l.node ∉ done := fun hd => by
  have hle := h.above _ hd
  have hlt := hg.carries_lt hl
  omega

theorem told_iff (h : Turn g past done rest u t n K s) (hl : l ∈ n.children) :
    (K.told l u).isSome = true ↔ t.stage.isSeen = true := by
  rw [(h.progress.inStep (fun hf => hf) ⟨n, h.node, hl⟩).held,
    h.coherent.shows_owner h.node h.owns]
  simp [h.found]

theorem ready (h : Turn g past done rest u t n K s) (hsignal : t.stage.isSeen = true ↔ signal ≠ .insert)
    (hl : l ∈ n.children) : Ready g signal l u K s where
  expects := (h.told_iff hl).trans hsignal
  quiet l' _ hd := by
    rcases h.progress.traced hd fun hf => hf with ⟨t', ht', hs, -⟩ | ⟨hnone, -⟩
    · rw [h.found] at ht'
      cases ht'
      have := h.dirty
      rw [hs] at this
      cases this
    · rw [h.found] at hnone
      cases hnone
  beyond m c _ hc := (h.progress.inStep (fun hf => hf) hc.leads).held

/-- After the tuple was settled it is still what its children may be told of. -/
theorem present_settled (h : Turn g past done rest u t n K s)
    (hfind : ∀ x, agenda.find? x = if u = x then some { t with stage := .settled }
      else s.net.agenda.find? x) :
    Present g past u { t with stage := .settled } { s with net := { s.net with agenda } } where
  found := (hfind u).trans (if_pos rfl)
  lasting {o t'} ho hlt := by
    obtain ⟨t'', ht'', hn⟩ := h.present.lasting ho hlt
    show ∃ t'', agenda.find? o = some t'' ∧ _
    rw [hfind]
    split
    · next he =>
      subst he
      rw [h.found] at ht''
      cases ht''
      exact ⟨_, rfl, hn⟩
    · exact ⟨t'', ht'', hn⟩

/-- Its children may then be told, as they might before. -/
theorem ready_settled (h : Turn g past done rest u t n K s)
    (hsettled : Coherent g past away (K.unsync u) { s with net := { s.net with agenda } })
    (hsignal : t.stage.isSeen = true ↔ signal ≠ .insert) (hl : l ∈ n.children) :
    Ready g signal l u (K.unsync u) { s with net := { s.net with agenda } } where
  expects := (h.ready hsignal hl).expects
  quiet := (h.ready hsignal hl).quiet
  beyond m c hb hc := by
    refine ((h.ready hsignal hl).beyond m c hb hc).trans ?_
    obtain ⟨nm, f, hnm, hf, -⟩ := hc
    rw [h.coherent.shows_filter hnm ⟨f, hf⟩, hsettled.shows_filter hnm ⟨f, hf⟩]
    rfl

end Turn

/-- If nothing is told of a tuple over the links of its node, nothing is told of it at all. -/
theorem untold (hg : g.WellFormed) (h : Coherent g past away K s)
    (ht : s.net.agenda.find? u = some t) {n : Node kind} (hn : g.nodes.get? t.node = some n)
    (hnone : ∀ l ∈ n.children, K.told l u = none)
    (hbeyond : ∀ l ∈ n.children, ∀ m c, g.Below l m → g.Passes m c →
      ((K.told c u).isSome = true ↔ s.net.Shows m.node u)) (l : Link) : K.told l u = none := by
  by_cases hcarries : g.Carries t.node l
  · obtain ⟨n', c, hn', -, hc, hb⟩ := hcarries
    rw [hn] at hn'
    cases hn'
    exact untold_below hg h ⟨_, n, hn, hc⟩ (hbeyond c hc) (hnone c hc) hb
  · exact h.told_eq_none ht hcarries

/-- Once the children of its node were told of a settled tuple, every link is in step. -/
theorem inStep_of_done (hg : g.WellFormed) (h : Coherent g past away K s)
    (ht : s.net.agenda.find? u = some t) (hstage : t.stage = .settled) {n : Node kind}
    (hn : g.nodes.get? t.node = some n) (ho : n.operator.ownsTuples = true)
    (hsignal : signal ≠ .retract) (hdone : ∀ l ∈ n.children, Done g signal l u K s)
    (hl : g.Leads p l) : InStep K s.net p l u := by
  by_cases hc : g.Carries t.node l
  · obtain ⟨n', c, hn', -, hmem, hb⟩ := hc
    rw [hn] at hn'
    cases hn'
    cases hb with
    | refl =>
      have hd := hdone l hmem
      obtain rfl := hg.leads_unique hl ⟨n, hn, hmem⟩
      refine ⟨?_, hd.synced⟩
      rw [hd.held, h.shows_owner hn ho]
      simp [hsignal, ht, hstage, Stage.isSeen]
    | step hb hpass =>
      obtain rfl := hg.leads_unique hl hpass.leads
      exact (hdone c hmem).beyond _ l hb hpass
  · exact .of_untold (h.told_eq_none ht hc) fun hshows => hc (h.carries_of_shows ht hl hshows)

/-- A tuple is settled and shown to the children of its node. -/
theorem show_spec (hg : g.WellFormed) (hsafe : g.Safe E) (hE : Error.Tolerates E) {n : Node kind}
    (h : Turn g past done rest u t n K s) (hopen : t.stage.isOpen = true)
    (hseen : t.stage.isSeen = true ↔ signal ≠ .insert) (hsignal : signal ≠ .retract) :
    Action.Ensures E (do
      onNetwork (Network.onAgenda (Agenda.setStage u .settled))
      forward g t.node signal u) s fun _ s' => ∃ K', Coherent g past rest K' s' ∧
        Progress g past done (fun _ => False) K' s' ∧
        Spares g (g.layerOf t.node) u s.net s'.net := by
  rw [Action.ensures_bind]
  refine Action.ensures_within.2 (Action.ensures_within.2 (Agenda.settle_spec h.coherent.sound h.found
    fun agenda hsound hfind hqueues _ hgeneration => ?_))
  have h₁ := h.coherent.settle h.found hopen hsound hfind hqueues
  have hp₁ : Progress g past done (· = u) (K.unsync u) { s with net := { s.net with agenda } } :=
    (h.progress.start u).dealWith h.found h.drained hfind
      (Nat.le_of_eq hgeneration.symm) rfl (fun l x hx => and_iff_right hx) fun l x hx => hx.2
  have hspares₁ : Spares g (g.layerOf t.node) u s.net { s.net with agenda } :=
    .of_find hfind hqueues (Agenda.openAt_settle h.found hopen hfind)
  have hpresent := h.present_settled hfind
  refine (forward_spec (t := { t with stage := .settled }) hg hsafe hE h.node h.owns h₁ hpresent
    fun l hl => h.ready_settled h₁ hseen hl).mono fun _ s₂ ⟨K₂, h₂, hframe, hdone⟩ => ⟨K₂, h₂, ?_, ?_⟩
  · have hp₂ := hp₁.frame hframe (fun l hl => h.off_done hg hl) rfl
    have hfound₂ : s₂.net.agenda.find? u = some { t with stage := .settled } :=
      hframe.drifts.other hpresent.found fun ⟨l, hl, he⟩ => hg.carries_ne hl he.symm
    exact hp₂.finish (fun p l hl => inStep_of_done hg h₂ hfound₂ rfl h.node h.owns hsignal hdone hl)
      (.inl ⟨_, hfound₂, rfl, h.drained⟩)
  · exact hspares₁.trans (hframe.spares (fun l hl => hg.carries_lt hl) fun l hl => hg.carries_leads hl)

/-- A withdrawn tuple that nothing is told of any more is released. -/
theorem release_spec (h : Coherent g past (u :: rest) K s) (hp : Progress g past done (· = u) K s)
    (ht : s.net.agenda.find? u = some t) (hdone : t.node ∈ done) (hopen : t.stage.isOpen = false)
    (huntold : ∀ l, K.told l u = none) :
    Action.Ensures E (onNetwork (Network.onAgenda (Agenda.release u))) s fun _ s' =>
      Coherent g past rest K s' ∧ Progress g past done (fun _ => False) K s' ∧
        Spares g k u s.net s'.net := by
  refine Action.ensures_within.2 (Action.ensures_within.2 (Agenda.release_spec h.sound ht
    fun agenda hsound hfind hqueues _ hgeneration => ?_))
  have h' := h.release ht hopen huntold hsound hfind hqueues
  have hp' : Progress g past done (· = u) K { s with net := { s.net with agenda } } :=
    hp.dealWith ht hdone hfind (by omega) rfl (fun _ _ _ => Iff.rfl) fun _ _ => id
  have hgone : agenda.find? u = none := (hfind u).trans (if_pos rfl)
  refine ⟨h', hp'.finish (fun p l hl => ?_) (.inr ⟨hgone, ?_⟩), .of_find hfind hqueues
    (Agenda.openAt_release ht hopen hfind)⟩
  · refine .of_untold (huntold l) ?_
    rintro (⟨t', ht', -⟩ | hpassed)
    · rw [show _ = _ from hgone] at ht'
      cases ht'
    · obtain ⟨n, hn, -⟩ := hl
      have htold := (h'.of_passed hn hpassed).2
      rw [huntold] at htold
      cases htold
  · have hle : u.generation ≤ s.net.agenda.tuples.generation := h.sound.store.generation_le ht
    show u.generation < agenda.tuples.generation
    omega

/-- The children of a node see what became of a tuple. -/
theorem process_spec (hg : g.WellFormed) (hsafe : g.Safe E) (hE : Error.Tolerates E) {n : Node kind}
    (h : Turn g past done rest u t n K s) :
    Action.Ensures E (process g t.node u) s fun _ s' => ∃ K', Coherent g past rest K' s' ∧
      Progress g past done (fun _ => False) K' s' ∧
      Spares g (g.layerOf t.node) u s.net s'.net := by
  have hdirty := h.dirty
  unfold process
  rw [Action.ensures_bind, Action.ensures_get, Action.ensures_bind,
    Action.ensures_lift_of_ok (Agenda.stage_eq h.found)]
  cases hstage : t.stage with
  | creating =>
    exact show_spec hg hsafe hE h (by rw [hstage]; rfl) (by simp [hstage, Stage.isSeen]) (by simp)
  | updating =>
    exact show_spec hg hsafe hE h (by rw [hstage]; rfl) (by simp [hstage, Stage.isSeen]) (by simp)
  | dying =>
    have hready : ∀ l ∈ n.children, Ready g .retract l u K s := fun l hl =>
      h.ready (by simp [hstage, Stage.isSeen]) hl
    rw [Action.ensures_bind]
    refine (forward_spec hg hsafe hE h.node h.owns h.coherent h.present hready).mono
      fun _ s₁ ⟨K₁, h₁, hframe, hdone⟩ => ?_
    have hp₁ := (h.progress.start u).frame hframe (fun l hl => h.off_done hg hl) rfl
    have hfound₁ : s₁.net.agenda.find? u = some t :=
      hframe.drifts.other h.found fun ⟨l, hl, he⟩ => hg.carries_ne hl he.symm
    have huntold : ∀ l, K₁.told l u = none :=
      untold hg h₁ hfound₁ h.node
        (fun l hl => Option.not_isSome_iff_eq_none.1 fun hk => (hdone l hl).held.1 hk rfl)
        fun l hl m c hb hc => ((hdone l hl).beyond m c hb hc).held
    refine (release_spec (k := g.layerOf t.node) h₁ hp₁ hfound₁ h.drained (by rw [hstage]; rfl)
      huntold).mono fun _ s₂ ⟨h₂, hp₂, hspares⟩ => ⟨K₁, h₂, hp₂, ?_⟩
    exact (hframe.spares (fun l hl => hg.carries_lt hl) fun l hl => hg.carries_leads hl).trans hspares
  | aborting =>
    have huntold : ∀ l, K.told l u = none := by
      refine untold hg h.coherent h.found h.node (fun l hl => ?_)
        fun l hl m c hb hc => (h.progress.inStep (fun hf => hf) hc.leads).held
      rw [← Option.not_isSome_iff_eq_none, h.told_iff hl, hstage]
      simp [Stage.isSeen]
    exact (release_spec h.coherent (h.progress.start u) h.found h.drained (by rw [hstage]; rfl)
      huntold).mono fun _ s₁ h₁ => ⟨K, h₁⟩
  | settled => rw [hstage] at hdirty; cases hdirty
  | dead => rw [hstage] at hdirty; cases hdirty

end Traced

end ConstraintStreams
