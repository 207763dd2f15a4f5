import ConstraintStreams.Proofs.Network.Coherence

/-!
# Delivering a signal

A signal about a tuple goes over a link, and through filters to the links below it. `deliver_spec` is
by induction on the number of filters in a row: before, the links below are in step with the filters
they come from; afterwards they are so again, and what the link was told is up to date. All else stays
as it is, which is what `Frame` says.
-/

namespace ConstraintStreams

/-- The functions of a graph fail with errors of `E` only. -/
def Graph.Safe {kind : ScoreKind} (E : Error → Prop) (g : Graph kind) : Prop :=
  ∀ p n, g.nodes.get? p = some n → n.operator.Safe E

namespace Graph.WellFormed

variable {kind : ScoreKind} {g : Graph kind} {p : NodeId} {l : Link} {n : Node kind}

/-- A link arrives on a side that its node has. -/
theorem fits (hg : g.WellFormed) (hl : g.Leads p l) (hn : g.nodes.get? l.node = some n) :
    l.side.Fits n.operator := by
  obtain ⟨c, hc, hside, -⟩ := hg.target hl
  rw [hn] at hc
  cases hc
  have hshaped := hg.linked.shaped hn
  have hle := inputs_le n.operator
  have hpos : 0 < n.parents.length :=
    List.length_pos_of_mem (Blueprint.mem_parents_of_sides hside)
  have hcases : n.parents.length = 1 ∨ n.parents.length = 2 := by omega
  rcases hcases with h | h
  · exact .inl ⟨hshaped ▸ h, Blueprint.side_eq_only hside h⟩
  · exact .inr ⟨hshaped ▸ h, Blueprint.side_ne_only hside h⟩

end Graph.WellFormed

namespace Traced

variable {kind : ScoreKind}

/-- What a delivery about the tuple `u` leaves as it is: all but the nodes and the knowledge of the
links `on`. -/
structure Frame (g : Graph kind) (u : TupleId) (on : Link → Prop) (K : Knowledge) (s : Traced kind)
    (K' : Knowledge) (s' : Traced kind) : Prop where
  drifts : Agenda.Drifts (fun q => ∃ l, on l ∧ l.node = q) s.net.agenda s'.net.agenda
  memories : ∀ q, (∀ l, on l → l.node ≠ q) → s'.net.memories.get? q = s.net.memories.get? q
  weights : ∀ q, s'.net.weightAt q = s.net.weightAt q
  shows : ∀ {p l x}, g.Leads p l → ¬ (x = u ∧ on l) → (s'.net.Shows p x ↔ s.net.Shows p x)
  told : ∀ {l x}, ¬ (x = u ∧ on l) → K'.told l x = K.told l x
  synced : ∀ {l x}, ¬ (x = u ∧ on l) → (K'.synced l x ↔ K.synced l x)
  trace : ∀ {l x}, ⟨l, x⟩ ∈ s'.trace → ⟨l, x⟩ ∈ s.trace ∨ x = u ∧ on l
  untouched : ∀ {l x facts}, K'.Untouched s' l x facts → K.Untouched s l x facts

/-- A signal about a tuple may go over a link: what was told over it fits the signal, nothing was
told of the tuple in this flush, and the links below are in step with their filters. -/
structure Ready (g : Graph kind) (signal : Signal) (l : Link) (u : TupleId) (K : Knowledge)
    (s : Traced kind) : Prop where
  expects : (K.told l u).isSome = true ↔ signal ≠ .insert
  quiet : ∀ l', g.Below l l' → ⟨l', u⟩ ∉ s.trace
  beyond : ∀ m c, g.Below l m → g.Passes m c →
    ((K.told c u).isSome = true ↔ s.net.Shows m.node u)

/-- A signal about a tuple went over a link. -/
structure Done (g : Graph kind) (signal : Signal) (l : Link) (u : TupleId) (K : Knowledge)
    (s : Traced kind) : Prop where
  held : (K.told l u).isSome = true ↔ signal ≠ .retract
  synced : (K.told l u).isSome = true → s.net.agenda.Settled u → K.synced l u
  beyond : ∀ m c, g.Below l m → g.Passes m c → InStep K s.net m.node c u

/-- The tuple `u` is `t`, and the tuples that were there when the flush began still are, but for those
of nodes that are not above it. -/
structure Present (g : Graph kind) (past : Network kind) (u : TupleId) (t : Tuple)
    (s : Traced kind) : Prop where
  found : s.net.agenda.find? u = some t
  lasting : ∀ {o t'}, past.agenda.find? o = some t' → g.layerOf t.node < g.layerOf t'.node →
    ∃ t'', s.net.agenda.find? o = some t'' ∧ t''.node = t'.node

variable {g : Graph kind} {past : Network kind} {away : List TupleId} {E : Error → Prop}
  {K K' K'' : Knowledge} {s s' s'' : Traced kind} {on on' : Link → Prop} {p : NodeId} {l : Link}
  {u x : TupleId} {t : Tuple} {signal : Signal}

namespace Frame

theorem refl (g : Graph kind) (u : TupleId) (on : Link → Prop) (K : Knowledge) (s : Traced kind) :
    Frame g u on K s K s where
  drifts := .refl _ _
  memories _ _ := rfl
  weights _ := rfl
  shows _ _ := Iff.rfl
  told _ := rfl
  synced _ := Iff.rfl
  trace h := .inl h
  untouched := id

theorem mono (h : Frame g u on K s K' s') (hle : ∀ l, on l → on' l) : Frame g u on' K s K' s' where
  drifts := h.drifts.mono fun _ ⟨l, hl, hq⟩ => ⟨l, hle l hl, hq⟩
  memories q hq := h.memories q fun l hl => hq l (hle l hl)
  weights := h.weights
  shows hl hoff := h.shows hl fun hx => hoff ⟨hx.1, hle _ hx.2⟩
  told hoff := h.told fun hx => hoff ⟨hx.1, hle _ hx.2⟩
  synced hoff := h.synced fun hx => hoff ⟨hx.1, hle _ hx.2⟩
  trace hd := (h.trace hd).imp_right fun hx => ⟨hx.1, hle _ hx.2⟩
  untouched := h.untouched

theorem trans (h : Frame g u on K s K' s') (h' : Frame g u on K' s' K'' s'') :
    Frame g u on K s K'' s'' where
  drifts := h.drifts.trans h'.drifts
  memories q hq := (h'.memories q hq).trans (h.memories q hq)
  weights q := (h'.weights q).trans (h.weights q)
  shows hl hoff := (h'.shows hl hoff).trans (h.shows hl hoff)
  told hoff := (h'.told hoff).trans (h.told hoff)
  synced hoff := (h'.synced hoff).trans (h.synced hoff)
  trace hd := (h'.trace hd).elim h.trace .inr
  untouched hx := h.untouched (h'.untouched hx)

theorem inStep (h : Frame g u on K s K' s') (hl : g.Leads p l) (hoff : ¬ (x = u ∧ on l))
    (hi : InStep K s.net p l x) : InStep K' s'.net p l x where
  held := by rw [h.told hoff, h.shows hl hoff]; exact hi.held
  synced htold hs := by
    rw [h.told hoff] at htold
    exact (h.synced hoff).2 (hi.synced htold (h.drifts.settled hs))

theorem shows_off (h : Frame g u on K s K' s') (hoff : ∀ l, on l → l.node ≠ p) :
    s'.net.Shows p x ↔ s.net.Shows p x := by
  have hsame : s'.net.passedAt p = s.net.passedAt p := by
    unfold Network.passedAt
    rw [h.memories p hoff]
  exact or_congr h.drifts.seen_iff (hsame ▸ Iff.rfl)

theorem present (h : Frame g u on K s K' s') (hp : Present g past u t s)
    (hoff : ∀ l, on l → l.node ≠ t.node) : Present g past u t s' where
  found := h.drifts.other hp.found fun ⟨l, hl, hq⟩ => hoff l hl hq
  lasting ho hlt := by
    obtain ⟨t', ht', hnode'⟩ := hp.lasting ho hlt
    obtain ⟨t'', ht'', hnode'', -⟩ := h.drifts.old ht'
    exact ⟨t'', ht'', hnode''.trans hnode'⟩

theorem ready (h : Frame g u on K s K' s') (hr : Ready g signal l u K s)
    (hoff : ∀ l', g.Below l l' → ¬ on l') : Ready g signal l u K' s' where
  expects := by
    rw [h.told fun hx => hoff l .refl hx.2]
    exact hr.expects
  quiet l' hb hd := by
    rcases h.trace hd with hd | ⟨-, hon⟩
    · exact hr.quiet l' hb hd
    · exact hoff l' hb hon
  beyond m c hb hc := by
    have hoff' : ¬ (u = u ∧ on c) := fun hx => hoff c (hb.step hc) hx.2
    rw [h.told hoff', h.shows hc.leads hoff']
    exact hr.beyond m c hb hc

theorem done (h : Frame g u on K s K' s') (hd : Done g signal l u K s)
    (hoff : ∀ l', g.Below l l' → ¬ on l') : Done g signal l u K' s' where
  held := by
    rw [h.told fun hx => hoff l .refl hx.2]
    exact hd.held
  synced htold hs := by
    have hoff' : ¬ (u = u ∧ on l) := fun hx => hoff l .refl hx.2
    rw [h.told hoff'] at htold
    exact (h.synced hoff').2 (hd.synced htold (h.drifts.settled hs))
  beyond m c hb hc :=
    h.inStep hc.leads (fun hx => hoff c (hb.step hc) hx.2) (hd.beyond m c hb hc)

end Frame

/-! ## One link after the other -/

/-- What holds before a signal goes over some links, and after. -/
theorem forM_spec (hg : g.WellFormed) {step : Link → TracedAction kind PUnit} {links : List Link}
    (hnodup : links.Nodup) (hleads : ∀ l ∈ links, g.Leads p l)
    (habove : ∀ l ∈ links, ∀ l', g.Below l l' → l'.node ≠ t.node)
    (hstep : ∀ l ∈ links, ∀ K s, Coherent g past away K s → Present g past u t s →
      Ready g signal l u K s → Action.Ensures E (step l) s fun _ s' => ∃ K',
        Coherent g past away K' s' ∧ Frame g u (g.Below l) K s K' s' ∧ Done g signal l u K' s')
    (h : Coherent g past away K s) (hp : Present g past u t s)
    (hr : ∀ l ∈ links, Ready g signal l u K s) :
    Action.Ensures E (links.forM step) s fun _ s' => ∃ K', Coherent g past away K' s' ∧
      Frame g u (fun l' => ∃ l ∈ links, g.Below l l') K s K' s' ∧
      ∀ l ∈ links, Done g signal l u K' s' := by
  induction links generalizing K s with
  | nil => exact ⟨K, h, .refl g u _ K s, fun l hl => by cases hl⟩
  | cons l rest ih =>
    obtain ⟨hnot, hnodup'⟩ := List.nodup_cons.1 hnodup
    have hl : g.Leads p l := hleads l List.mem_cons_self
    have hapart : ∀ m ∈ rest, ∀ l', g.Below m l' → ¬ g.Below l l' := fun m hm l' hb hb' =>
      hnot (hg.siblings_disjoint (hleads m (List.mem_cons_of_mem l hm)) hl hb hb' ▸ hm)
    rw [Action.ensures_forM_cons]
    refine (hstep l List.mem_cons_self K s h hp (hr l List.mem_cons_self)).mono
      fun _ s₁ ⟨K₁, h₁, hframe₁, hdone₁⟩ => ?_
    have hp₁ := hframe₁.present hp (habove l List.mem_cons_self)
    have hr₁ : ∀ m ∈ rest, Ready g signal m u K₁ s₁ := fun m hm =>
      hframe₁.ready (hr m (List.mem_cons_of_mem l hm)) (hapart m hm)
    refine (ih hnodup' (fun m hm => hleads m (List.mem_cons_of_mem l hm))
      (fun m hm => habove m (List.mem_cons_of_mem l hm))
      (fun m hm => hstep m (List.mem_cons_of_mem l hm)) h₁ hp₁ hr₁).mono
      fun _ s₂ ⟨K₂, h₂, hframe₂, hdone₂⟩ => ?_
    refine ⟨K₂, h₂, ?_, fun m hm => ?_⟩
    · refine (hframe₁.mono fun l' hb => ⟨l, List.mem_cons_self, hb⟩).trans
        (hframe₂.mono fun l' ⟨m, hm, hb⟩ => ⟨m, List.mem_cons_of_mem l hm, hb⟩)
    · rcases List.mem_cons.1 hm with rfl | hm
      · exact hframe₂.done hdone₁ fun l' hb ⟨m', hm', hb'⟩ => hapart m' hm' l' hb' hb
      · exact hdone₂ m hm

/-! ## One delivery -/

/-- After a signal went over a link, the node of the link knows what it says. -/
theorem fades_after {facts : Facts} (hsettled : ∀ x, s'.net.agenda.Settled x → s.net.agenda.Settled x) :
    View.Fades ((K.view s l.node).after signal l.side u facts)
      ((K.after signal l u facts).view s' l.node) := by
  obtain ⟨q, side⟩ := l
  have hlink : ∀ {side'}, (⟨q, side⟩ : Link) = ⟨q, side'⟩ ↔ side = side' := by simp
  constructor
  · funext side' x
    by_cases hx : side = side' ∧ u = x
    · cases signal <;> simp [Knowledge.view, Knowledge.after, View.after, View.tell, View.drop, hx]
    · cases signal <;>
        simp only [Knowledge.view, Knowledge.after, View.after, View.tell, View.drop, hlink, if_neg hx]
  · intro side' x hfresh
    obtain ⟨hsynced, hs⟩ := hfresh
    have hs' := hsettled x hs
    by_cases hx : side = side' ∧ u = x
    · simp only [Knowledge.after, hlink, if_pos hx] at hsynced
      cases signal with
      | retract => exact absurd rfl hsynced
      | _ => exact .inl hx
    · simp only [Knowledge.after, hlink, if_neg hx] at hsynced
      cases signal with
      | retract => exact ⟨hx, hsynced, hs'⟩
      | _ => exact .inr ⟨hsynced, hs'⟩

theorem recent_after {facts : Facts} (htrace : s'.trace = ⟨l, u⟩ :: s.trace) :
    ((K.after signal l u facts).view s' l.node).recent =
      ((K.view s l.node).after signal l.side u facts).recent := by
  obtain ⟨q, side⟩ := l
  funext side' x
  have hmem : (⟨⟨q, side'⟩, x⟩ : Delivery) ∈ s'.trace ↔
      (side = side' ∧ u = x) ∨ ⟨⟨q, side'⟩, x⟩ ∈ s.trace := by
    rw [htrace, List.mem_cons]
    refine or_congr_left ⟨?_, ?_⟩
    · rintro ⟨⟩; exact ⟨rfl, rfl⟩
    · rintro ⟨rfl, rfl⟩; rfl
  cases signal <;> exact propext hmem

section After

variable {facts : Facts} {l' : Link}

theorem told_after_of_ne (hne : ¬ (l = l' ∧ u = x)) :
    (K.after signal l u facts).told l' x = K.told l' x := if_neg hne

theorem synced_after_of_ne (hne : ¬ (l = l' ∧ u = x)) :
    (K.after signal l u facts).synced l' x ↔ K.synced l' x := by
  simp only [Knowledge.after, if_neg hne]

theorem isSome_told_after :
    ((K.after signal l u facts).told l u).isSome = true ↔ signal ≠ .retract := by
  by_cases hs : signal = .retract <;> simp [Knowledge.after, hs]

theorem synced_after : (K.after signal l u facts).synced l u ↔ signal ≠ .retract := by
  simp [Knowledge.after]

/-- What was said over the link comes from the tuple, and what was said before still does. -/
theorem feeds_after (h : Coherent g past away K s) (hp : Present g past u t s)
    (hc : g.Carries t.node l) (htold : (K.after signal l u t.facts).told l' x = some facts) :
    ∃ t', s.net.agenda.find? x = some t' ∧ g.Carries t'.node l' ∧
      ((K.after signal l u t.facts).synced l' x → t'.stage = .settled → t'.facts = facts) := by
  by_cases hx : l = l' ∧ u = x
  · obtain ⟨rfl, rfl⟩ := hx
    simp only [Knowledge.after, and_self, if_true] at htold
    split at htold
    · cases htold
    · cases htold
      exact ⟨t, hp.found, hc, fun _ _ => rfl⟩
  · rw [told_after_of_ne hx] at htold
    obtain ⟨t', ht', hcarries, hfacts⟩ := h.feeds htold
    exact ⟨t', ht', hcarries, fun hs => hfacts ((synced_after_of_ne hx).1 hs)⟩

end After

/-- The node of a link has dealt with a signal about a tuple. All else is as it was, and `next` is what
goes on over the links below. -/
structure Received (g : Graph kind) (past : Network kind) (away : List TupleId) (signal : Signal)
    (l : Link) (u : TupleId) (t : Tuple) (K : Knowledge) (s s' : Traced kind)
    (next : Option Signal) : Prop where
  coherent : Coherent g past away (K.after signal l u t.facts) s'
  frame : Frame g u (g.Below l) K s (K.after signal l u t.facts) s'
  tells : FilterMemory.Tells u (s.net.passedAt l.node) (s'.net.passedAt l.node) next
  shows : ∀ p x, p ≠ l.node → (s'.net.Shows p x ↔ s.net.Shows p x)
  trace : s'.trace = ⟨l, u⟩ :: s.trace

/-- Only a filter would show the tuple itself otherwise, and its links are below. -/
theorem shows_of_tells {n : Node kind} {next : Option Signal} (hn : g.nodes.get? l.node = some n)
    (h : Coherent g past away K s) (h' : Coherent g past away K' s')
    (hevolves : Agenda.Evolves l.node s.net.agenda s'.net.agenda)
    (htells : FilterMemory.Tells u (s.net.passedAt l.node) (s'.net.passedAt l.node) next) {l' : Link}
    (hl' : g.Leads l.node l') (hoff : ¬ (x = u ∧ g.Below l l')) :
    s'.net.Shows l.node x ↔ s.net.Shows l.node x := by
  refine or_congr hevolves.seen_iff ?_
  by_cases hx : x = u
  · have hnot : ∀ {K : Knowledge} {s : Traced kind}, Coherent g past away K s →
        x ∉ s.net.passedAt l.node := by
      intro K s h hmem
      obtain ⟨⟨f, hf⟩, -⟩ := h.of_passed hn hmem
      obtain ⟨n', hn', hchild⟩ := hl'
      rw [hn] at hn'
      cases hn'
      exact hoff ⟨hx, Graph.Below.refl.step ⟨n, f, hn, hf, hchild⟩⟩
    exact iff_of_false (hnot h') (hnot h)
  · exact htells.other x hx

/-- What a delivery does at the node of the link. -/
theorem act_spec (hg : g.WellFormed) (hsafe : g.Safe E) (hE : Error.Tolerates E)
    {n : Node kind} (hn : g.nodes.get? l.node = some n) (h : Coherent g past away K s)
    (hp : Present g past u t s) (hc : g.Carries t.node l) (hr : Ready g signal l u K s)
    (operations : Nat) :
    Action.Ensures E (onNetwork (Network.act l.node n l.side u signal))
      ⟨{ s.net with operations }, ⟨l, u⟩ :: s.trace⟩ fun next s' =>
        Received g past away signal l u t K s s' next := by
  obtain ⟨m, m₀, hm, hm₀, hvalid, hsince⟩ := h.memory hn
  obtain ⟨p, hlead⟩ := hg.carries_leads hc
  have hids : ∀ o, s.net.agenda.find? o = none → past.agenda.openAt l.node o = none := by
    intro o ho
    rw [Option.eq_none_iff_forall_not_mem]
    rintro ⟨facts, sources⟩ hopen
    obtain ⟨t', ht', hnode, -⟩ := Agenda.openAt_eq_some_iff.1 hopen
    obtain ⟨t'', ht'', -⟩ := hp.lasting ht' (hnode ▸ hg.carries_lt hc)
    rw [ho] at ht''
    cases ht''
  have hm' : ({ s.net with operations } : Network kind).memories.get? l.node = some m := hm
  refine Action.ensures_within.2 ((Network.act_spec hm' h.sound
    (h.queue_of_owns hn) (h.feeds_view hg l.node) hvalid hsince (hg.fits hlead hn) hr.expects
    (hr.quiet l .refl) hp.found (hg.carries_ne hc) hids (hsafe _ _ hn) hE).mono
    fun next net' ⟨m', hacted, htells⟩ => ?_)
  -- The number of operations is in no memory and no tuple.
  have hacted' : Network.Acted l.node away n.operator m₀ (past.agenda.openAt l.node)
      ((K.view s l.node).after signal l.side u t.facts) m m' s.net net' :=
    ⟨hacted.memories, hacted.sound, hacted.evolves, hacted.valid, hacted.since, hacted.weight⟩
  have htells' : FilterMemory.Tells u (s.net.passedAt l.node) (net'.passedAt l.node) next := by
    have hbefore : s.net.passedAt l.node = m.passed := by simp [Network.passedAt, hm]
    rw [hbefore, hacted.passedAt_self]
    exact htells
  have hcoherent : Coherent g past away (K.after signal l u t.facts)
      ⟨net', ⟨l, u⟩ :: s.trace⟩ := by
    refine h.act hn hm₀ hacted' (fades_after fun x => hacted.evolves.settled) (recent_after rfl) ?_ ?_
      fun l' x facts _ htold => feeds_after h hp hc htold
    · intro l' x hne
      have hne' : ¬ (l = l' ∧ u = x) := fun he => hne (he.1 ▸ rfl)
      exact ⟨told_after_of_ne hne', (synced_after_of_ne hne').1⟩
    · intro l' x hne
      rw [List.mem_cons, or_iff_right]
      rintro ⟨⟩
      exact hne rfl
  refine ⟨hcoherent, ?_, htells', fun p x hne => hacted'.shows_of_ne (Ne.symm hne) x, rfl⟩
  have hoff : ∀ {l' x}, ¬ (x = u ∧ g.Below l l') → ¬ (l = l' ∧ u = x) := fun hoff he =>
    hoff ⟨he.2.symm, he.1 ▸ .refl⟩
  refine {
    drifts := hacted'.evolves.mono fun q hq => ⟨l, .refl, hq.symm⟩
    memories := fun q hq => (hacted.memories q).trans (if_neg (hq l .refl))
    weights := hacted'.weightAt hm
    shows := fun {p' l' x} hl' hne => ?shows
    told := fun hne => told_after_of_ne (hoff hne)
    synced := fun hne => synced_after_of_ne (hoff hne)
    trace := fun {l' x} hd => ?trace
    untouched := fun {l' x facts} hx => ?untouched }
  case shows =>
    by_cases hpl : l.node = p'
    · subst hpl
      exact shows_of_tells hn h hcoherent hacted'.evolves htells' hl' hne
    · exact hacted'.shows_of_ne hpl x
  case trace =>
    rcases List.mem_cons.1 hd with he | hd
    · cases he
      exact .inr ⟨rfl, .refl⟩
    · exact .inl hd
  case untouched =>
    obtain ⟨hk, hs, hd⟩ := hx
    obtain ⟨hself, hd⟩ := not_or.1 (List.mem_cons.not.1 hd)
    have hne : ¬ (l = l' ∧ u = x) := fun he => hself (by rw [he.1, he.2])
    exact ⟨(told_after_of_ne hne) ▸ hk, (synced_after_of_ne hne).1 hs, hd⟩

/-- What a link was not told of, the links below it were not told of either. -/
theorem untold_below (hg : g.WellFormed) (h : Coherent g past away K s) (hl : ∃ p, g.Leads p l)
    (hbeyond : ∀ m c, g.Below l m → g.Passes m c →
      ((K.told c u).isSome = true ↔ s.net.Shows m.node u))
    (hnone : K.told l u = none) {c : Link} (hb : g.Below l c) : K.told c u = none := by
  induction hb with
  | refl => exact hnone
  | @step m c hb hc ih =>
    by_contra hne
    have hshows := (hbeyond m c hb hc).1 (Option.isSome_iff_ne_none.2 hne)
    obtain ⟨n, f, hn, hf, -⟩ := hc
    rw [h.shows_filter hn ⟨f, hf⟩] at hshows
    have htold := (h.of_passed hn hshows).2
    obtain ⟨⟨p, hlead⟩, -⟩ := hg.below_leads hl hb
    -- A filter has one side.
    have hside : m.side = .only := by
      rcases hg.fits hlead hn with ⟨-, hside⟩ | ⟨htwo, -⟩
      · exact hside
      · rw [hf] at htwo; cases htwo
    obtain ⟨q, side⟩ := m
    obtain rfl : side = .only := hside
    rw [ih] at htold
    cases htold

theorem countOperation_spec (hE : Error.Tolerates E) {net : Network kind}
    {Q : Unit → Network kind → Prop} (hQ : Q () { net with operations := net.operations + 1 }) :
    Action.Ensures E Network.countOperation net Q := by
  unfold Network.countOperation
  simp only [Action.ensures_bind, Action.ensures_modify, Action.ensures_get]
  rw [Action.ensures_lift]
  refine ⟨fun _ _ => hQ, fun e he => ?_⟩
  unfold Limits.check at he
  split at he
  · cases he; exact hE.limit _ _
  · cases he

/-! ## What goes on below a filter -/

section Filters

variable {facts : Facts} {c m : Link}

theorem ne_of_below (hg : g.WellFormed) (hc : g.Passes l c) (hb : g.Below c m) : m.node ≠ l.node := by
  intro he
  have hlt := hg.beyond_lt hc hb
  rw [he] at hlt
  exact Nat.lt_irrefl _ hlt

/-- The links below a filter have not been told of the signal yet. -/
theorem told_after_below (hg : g.WellFormed) (hc : g.Passes l c) (hb : g.Below c m) :
    (K.after signal l u facts).told m u = K.told m u :=
  told_after_of_ne fun he => ne_of_below hg hc hb (he.1 ▸ rfl)

theorem shows_iff_passed (h : Coherent g past away K s) (hc : g.Passes l c) :
    s.net.Shows l.node u ↔ u ∈ s.net.passedAt l.node := by
  obtain ⟨n, f, hn, hf, -⟩ := hc
  exact h.shows_filter hn ⟨f, hf⟩

/-- A link below was told of the tuple if the filter had let it pass. -/
theorem told_child (hg : g.WellFormed) (h : Coherent g past away K s) (hr : Ready g signal l u K s)
    (hc : g.Passes l c) :
    ((K.after signal l u facts).told c u).isSome = true ↔ u ∈ s.net.passedAt l.node := by
  rw [told_after_below hg hc .refl, hr.beyond l c .refl hc, shows_iff_passed h hc]

end Filters

namespace Received

variable {next : Option Signal} {c m c' : Link}

theorem present (hrec : Received g past away signal l u t K s s' next) (hg : g.WellFormed)
    (hc : g.Carries t.node l) (hp : Present g past u t s) : Present g past u t s' :=
  hrec.frame.present hp fun l' hb he => by
    have hlt := hg.carries_lt hc
    have hle := (hg.below_leads (hg.carries_leads hc) hb).2
    rw [he] at hle
    omega

/-- Beyond the links below, all is in step as it was. -/
theorem told_beyond (hrec : Received g past away signal l u t K s s' next) (hg : g.WellFormed)
    (hr : Ready g signal l u K s) (hc : g.Passes l c) (hb : g.Below c m) (hm : g.Passes m c') :
    ((K.after signal l u t.facts).told c' u).isSome = true ↔ s'.net.Shows m.node u := by
  rw [told_after_below hg hc (hb.step hm), hrec.shows _ _ (ne_of_below hg hc hb)]
  exact hr.beyond m c' ((Graph.Below.refl.step hc).trans hb) hm

/-- Only a filter lets a signal go on. -/
theorem exists_filter {next : Signal} (hrec : Received g past away signal l u t K s s' (some next))
    (h : Coherent g past away K s) {n : Node kind} (hn : g.nodes.get? l.node = some n) :
    ∃ f, n.operator = .filter f := by
  by_cases hnext : next = .insert
  · have hpassed := hrec.tells.after.2 ⟨next, rfl, by rw [hnext]; simp⟩
    exact (hrec.coherent.of_passed hn hpassed).1
  · have hpassed := hrec.tells.before.2 ⟨next, rfl, hnext⟩
    exact (h.of_passed hn hpassed).1

/-- Where nothing goes on, the links below were not told of the tuple, and the delivery is done. -/
theorem stop (hrec : Received g past away signal l u t K s s' none) (hg : g.WellFormed)
    (h : Coherent g past away K s) (hr : Ready g signal l u K s) :
    Done g signal l u (K.after signal l u t.facts) s' where
  held := isSome_told_after
  synced htold _ := synced_after.2 (isSome_told_after.1 htold)
  beyond := by
    intro m c hb hc
    have huntold : ∀ {d c}, g.Passes l d → g.Below d c →
        (K.after signal l u t.facts).told c u = none := by
      intro d c hd hb
      refine untold_below hg hrec.coherent ⟨_, hd.leads⟩
        (fun m c' hm hc' => hrec.told_beyond hg hr hd hm hc') ?_ hb
      rw [← Option.not_isSome_iff_eq_none, told_child hg h hr hd, hrec.tells.before]
      rintro ⟨_, he, -⟩
      cases he
    rcases Graph.below_iff.1 hb with rfl | ⟨d, hd, hb'⟩
    · have hnone := huntold hc .refl
      refine ⟨?_, fun htold => by rw [hnone] at htold; cases htold⟩
      rw [hnone, shows_iff_passed hrec.coherent hc, hrec.tells.after]
      simp
    · have hnone := huntold hd (hb'.step hc)
      exact ⟨hrec.told_beyond hg hr hd hb' hc, fun htold => by rw [hnone] at htold; cases htold⟩

/-- What goes on may go over every link below. -/
theorem ready {next : Signal} (hrec : Received g past away signal l u t K s s' (some next))
    (hg : g.WellFormed) (h : Coherent g past away K s) (hr : Ready g signal l u K s)
    (hc : g.Passes l c) : Ready g next c u (K.after signal l u t.facts) s' where
  expects := by
    rw [told_child hg h hr hc, hrec.tells.before]
    simp
  quiet l' hb hd := by
    rw [hrec.trace] at hd
    rcases List.mem_cons.1 hd with he | hd
    · cases he
      exact ne_of_below hg hc hb rfl
    · exact hr.quiet l' ((Graph.Below.refl.step hc).trans hb) hd
  beyond m c' hm hc' := hrec.told_beyond hg hr hc hm hc'

/-- Once what goes on has gone over every link below, the delivery is done. -/
theorem done {next : Signal} (hrec : Received g past away signal l u t K s s' (some next))
    (hg : g.WellFormed) {n : Node kind} (hn : g.nodes.get? l.node = some n)
    (hchild : ∀ c ∈ n.children, g.Passes l c)
    (hframe : Frame g u (fun l' => ∃ c ∈ n.children, g.Below c l') (K.after signal l u t.facts) s'
      K'' s'') (hdone : ∀ c ∈ n.children, Done g next c u K'' s'') : Done g signal l u K'' s'' := by
  have hoff : ∀ l', (∃ c ∈ n.children, g.Below c l') → l'.node ≠ l.node :=
    fun l' ⟨c, hc, hb⟩ => ne_of_below hg (hchild c hc) hb
  have hself : ¬ (u = u ∧ ∃ c ∈ n.children, g.Below c l) := fun hx => hoff l hx.2 rfl
  have hpassed : ∀ {c}, g.Passes l c → c ∈ n.children := by
    rintro c ⟨n', -, hn', -, hmem⟩
    rw [hn] at hn'
    cases hn'
    exact hmem
  refine ⟨?held, fun htold _ => ?synced, fun m c hb hc => ?beyond⟩
  case held =>
    rw [hframe.told hself]
    exact isSome_told_after
  case synced =>
    rw [hframe.told hself] at htold
    exact (hframe.synced hself).2 (synced_after.2 (isSome_told_after.1 htold))
  case beyond =>
    rcases Graph.below_iff.1 hb with rfl | ⟨d, hd, hb'⟩
    · have hmem := hpassed hc
      refine ⟨?_, (hdone c hmem).synced⟩
      rw [(hdone c hmem).held, hframe.shows_off hoff, shows_iff_passed hrec.coherent hc,
        hrec.tells.after]
      simp
    · exact (hdone d (hpassed hd)).beyond m c hb' hc

end Received

/-- A signal about a tuple goes over a link and through the filters there. -/
theorem deliver_spec (hg : g.WellFormed) (hsafe : g.Safe E) (hE : Error.Tolerates E) (depth : Nat)
    (h : Coherent g past away K s) (hp : Present g past u t s) (hc : g.Carries t.node l)
    (hdepth : g.height ≤ g.layerOf l.node + depth) (hr : Ready g signal l u K s) :
    Action.Ensures E (deliver g depth signal u l) s fun _ s' => ∃ K', Coherent g past away K' s' ∧
      Frame g u (g.Below l) K s K' s' ∧ Done g signal l u K' s' := by
  induction depth generalizing signal l K s with
  | zero =>
    obtain ⟨p, hlead⟩ := hg.carries_leads hc
    obtain ⟨n', hn', -⟩ := hg.target hlead
    have hlt := Graph.layer_lt_height hn'
    rw [Graph.layerOf_eq hn'] at hdepth
    omega
  | succ depth ih =>
    obtain ⟨p, hlead⟩ := hg.carries_leads hc
    obtain ⟨n, hn, -⟩ := hg.target hlead
    have hnode : g.node l.node = .ok n := by simp [Graph.node, hn]
    unfold deliver
    simp only [Action.ensures_bind]
    refine Action.ensures_within.2 (countOperation_spec hE ?_)
    rw [Action.ensures_lift_of_ok hnode]
    refine (act_spec hg hsafe hE hn h hp hc hr _).mono fun next s₁ hrec => ?_
    cases next with
    | none => exact ⟨_, hrec.coherent, hrec.frame, hrec.stop hg h hr⟩
    | some next =>
      obtain ⟨f, hf⟩ := hrec.exists_filter h hn
      have hchild : ∀ c ∈ n.children, g.Passes l c := fun c hmem => ⟨n, f, hn, hf, hmem⟩
      have hcarries : ∀ c ∈ n.children, g.Carries t.node c := by
        intro c hmem
        obtain ⟨n₀, c₀, hn₀, ho, hc₀, hb₀⟩ := hc
        exact ⟨n₀, c₀, hn₀, ho, hc₀, hb₀.step (hchild c hmem)⟩
      have hdepth' : ∀ c ∈ n.children, g.height ≤ g.layerOf c.node + depth := by
        intro c hmem
        have hlt := hg.layerOf_lt (hchild c hmem).leads
        omega
      have habove : ∀ c ∈ n.children, ∀ l', g.Below c l' → l'.node ≠ t.node := by
        intro c hmem l' hb he
        have hlt := hg.carries_lt hc
        have hlt' := hg.beyond_lt (hchild c hmem) hb
        rw [he] at hlt'
        omega
      refine (forM_spec hg (hg.linked.children_nodup hn) (fun c hmem => ⟨n, hn, hmem⟩) habove
        (fun c hmem K' s' h' hp' hr' => ih h' hp' (hcarries c hmem) (hdepth' c hmem) hr')
        hrec.coherent (hrec.present hg hc hp) fun c hmem => hrec.ready hg h hr (hchild c hmem)).mono ?_
      rintro _ s₂ ⟨K₂, h₂, hframe₂, hdone₂⟩
      have hwithin : ∀ l', (∃ c ∈ n.children, g.Below c l') → g.Below l l' :=
        fun l' ⟨c, hmem, hb⟩ => (Graph.Below.refl.step (hchild c hmem)).trans hb
      exact ⟨K₂, h₂, hrec.frame.trans (hframe₂.mono hwithin), hrec.done hg hn hchild hframe₂ hdone₂⟩

/-- A signal about a tuple goes to all children of its node. -/
theorem forward_spec (hg : g.WellFormed) (hsafe : g.Safe E) (hE : Error.Tolerates E) {n : Node kind}
    (hn : g.nodes.get? t.node = some n) (ho : n.operator.ownsTuples = true)
    (h : Coherent g past away K s) (hp : Present g past u t s)
    (hr : ∀ l ∈ n.children, Ready g signal l u K s) :
    Action.Ensures E (forward g t.node signal u) s fun _ s' => ∃ K', Coherent g past away K' s' ∧
      Frame g u (g.Carries t.node) K s K' s' ∧ ∀ l ∈ n.children, Done g signal l u K' s' := by
  have hnode : g.node t.node = .ok n := by simp [Graph.node, hn]
  have hleads : ∀ l ∈ n.children, g.Leads t.node l := fun l hl => ⟨n, hn, hl⟩
  have hcarries : ∀ l ∈ n.children, ∀ l', g.Below l l' → g.Carries t.node l' :=
    fun l hl l' hb => ⟨n, l, hn, ho, hl, hb⟩
  unfold forward
  rw [Action.ensures_bind, Action.ensures_lift_of_ok hnode]
  refine (forM_spec hg (hg.linked.children_nodup hn) hleads
    (fun l hl l' hb => (hg.carries_ne (hcarries l hl l' hb)).symm) ?_ h hp hr).mono ?_
  · intro l hl K s h hp hr
    exact deliver_spec hg hsafe hE g.height h hp (hcarries l hl l .refl) (Nat.le_add_left _ _) hr
  · rintro _ s' ⟨K', h', hframe, hdone⟩
    refine ⟨K', h', hframe.mono ?_, hdone⟩
    rintro l' ⟨l, hl, hb⟩
    exact hcarries l hl l' hb

end Traced

end ConstraintStreams
