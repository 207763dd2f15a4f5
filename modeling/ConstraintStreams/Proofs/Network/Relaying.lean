import ConstraintStreams.Proofs.Graph.Routes
import ConstraintStreams.Proofs.Network.Quiet
import ConstraintStreams.Proofs.Network.Replaying

/-!
# What a delivery leaves alone

A signal that goes over a link reaches the nodes of that link and of the links below it, and no other: the
memories and the tuples of all others stay as they are, and nothing is noted but over those links.
-/

namespace ConstraintStreams

variable {kind : ScoreKind}

namespace Network

variable {g : Graph kind} {net net' : Network kind} {q : NodeId} {n : Node kind} {side : Side}
  {u : TupleId} {signal : Signal}

/-- Only a filter passes anything on at once. -/
theorem act_answers {next : Signal} (h : act q n side u signal net = .ok (some next) net') :
    ∃ p, n.operator = .filter p := by
  have hends : Action.Ends (act q n side u signal) net
      (fun next _ => next.isSome = true → ∃ p, n.operator = .filter p) fun _ => True := by
    unfold act
    rw [Action.ends_bind]
    refine (memoryOf_ends q net).mono ?_ fun _ _ => trivial
    rintro m _ -
    have silent (x : NetworkAction kind Unit) (net : Network kind) :
        Action.Ends (do x; pure (none : Option Signal)) net
          (fun next _ => next.isSome = true → ∃ p, n.operator = .filter p) fun _ => True := by
      rw [Action.ends_bind]
      unfold Action.Ends
      split
      · exact fun h => by cases h
      · trivial
    split
    case h_1 p m hop =>
      unfold Action.Ends
      split
      · exact fun _ => ⟨p, hop⟩
      · trivial
    case h_10 => trivial
    all_goals exact silent _ _
  exact hends.of_ok h rfl

/-- What a filter does in a network. -/
theorem act_filter {p : TuplePredicate} {m : FilterMemory} {facts : Facts} {passes : Bool}
    (hop : n.operator = .filter p) (hm : net.memories.get? q = some (.filter m))
    (hfacts : net.agenda.facts u = .ok facts) (hp : p.run facts = .ok passes) :
    act q n side u signal net = .ok (m.turn signal u passes).2
      { net with memories := net.memories.insert q (.filter (m.turn signal u passes).1) } := by
  have hmemory : memoryOf q net = .ok (.filter m) net := by
    unfold memoryOf
    rw [Action.bind_ok (Action.get_eq net), hm]
    rfl
  unfold act
  rw [Action.bind_ok hmemory, hop]
  simp only [onMemory, Action.within, FilterMemory.accept_eq hfacts hp]

end Network

namespace Graph

variable {g : Graph kind} {q : NodeId} {n : Node kind} {l c k : Link}

/-- The link is one of the others, or below one. -/
def Aside (g : Graph kind) (links : List Link) (c l : Link) : Prop := ∃ x ∈ links, x ≠ c ∧ g.Below x l

/-- The link leads to a filter. -/
def ToFilter (g : Graph kind) (l : Link) : Prop :=
  ∃ n p, g.nodes.get? l.node = some n ∧ n.operator = .filter p

namespace WellFormed

theorem aside_leads (hg : g.WellFormed) (hn : g.nodes.get? q = some n) (h : g.Aside n.children c l) :
    (∃ p, g.Leads p l) ∧ g.layerOf q < g.layerOf l.node := by
  obtain ⟨x, hx, -, hb⟩ := h
  obtain ⟨hl, hle⟩ := hg.below_leads ⟨q, n, hn, hx⟩ hb
  exact ⟨hl, Nat.lt_of_lt_of_le (hg.layerOf_lt ⟨n, hn, hx⟩) hle⟩

/-- What goes on from a filter does not come back to it. -/
theorem beyond_ne (hg : g.WellFormed) (hpasses : g.Passes l c) (hb : g.Below c k) : k.node ≠ l.node :=
  fun he => Nat.lt_irrefl _ (he ▸ hg.beyond_lt hpasses hb)

/-- What is below one child of a node is not below another one. -/
theorem not_aside (hg : g.WellFormed) (hn : g.nodes.get? q = some n) (hc : c ∈ n.children)
    (hb : g.Below c k) : ¬ g.Aside n.children c k := by
  rintro ⟨x, hx, hne, hb'⟩
  exact hne (hg.siblings_disjoint ⟨n, hn, hx⟩ ⟨n, hn, hc⟩ hb' hb)

/-- A filter below one child of a node is not reached over another one. -/
theorem aside_ne (hg : g.WellFormed) (hn : g.nodes.get? q = some n) (hc : c ∈ n.children)
    (hb : g.Below c k) (hk : g.ToFilter k) (h : g.Aside n.children c l) : l.node ≠ k.node := by
  intro he
  obtain ⟨⟨p, hp⟩, -⟩ := hg.aside_leads hn h
  obtain ⟨⟨p', hp'⟩, -⟩ := hg.below_leads ⟨q, n, hn, hc⟩ hb
  obtain ⟨n', f, hn', hf⟩ := hk
  have hsame := hg.filter_link_unique hp hp' he (he ▸ hn') (by rw [hf]; rfl)
  exact hg.not_aside hn hc hb (hsame ▸ h)

end WellFormed

end Graph

namespace Watched

variable {g : Graph kind} {w w' w'' : Watched kind} {on on' : Link → Prop} {l c : Link} {n : Node kind}
  {u : TupleId} {signal : Signal} {depth : Nat}

/-- What went over a link, in order. -/
def sent (w : Watched kind) (l : Link) : List (Moment kind) :=
  w.moments.reverse.filter fun m => m.link = l

/-- The signals that went over a link, in order, and the tuples that they were about. -/
def received (w : Watched kind) (l : Link) : List (Signal × TupleId) := (w.sent l).map Moment.message

theorem onNetwork_eq_ok {α : Type} {x : NetworkAction kind α} {a : α} :
    onNetwork x w = .ok a w' ↔ ∃ net, x w.net = .ok a net ∧ w' = { w with net } := by
  unfold onNetwork Action.within
  cases x w.net with
  | ok b net => simp [eq_comm]
  | error e net => simp

theorem countOperation_eq_ok {net net' : Network kind} {a : Unit}
    (h : Network.countOperation net = .ok a net') :
    net' = { net with operations := net.operations + 1 } := by
  have hends : Action.Ends Network.countOperation net
      (fun _ net' => net' = { net with operations := net.operations + 1 }) fun _ => True := by
    unfold Network.countOperation
    rw [Action.ends_bind, Action.ends_modify, Action.ends_bind, Action.ends_get, Action.ends_lift]
    exact ⟨fun _ _ => rfl, fun _ _ => trivial⟩
  exact hends.of_ok h

/-- A delivery that succeeds: it is noted, the node acts, and what it passes on goes to its children. -/
theorem deliver_eq_ok (h : deliver g depth signal u l w = .ok () w') : ∃ depth' n net net' next,
    depth = depth' + 1 ∧ g.nodes.get? l.node = some n ∧
    net.agenda = w.net.agenda ∧ net.memories = w.net.memories ∧
    Network.act l.node n l.side u signal net = .ok next net' ∧
    (∀ next', next = some next' → n.children.forM (deliver g depth' next' u)
      ⟨net', ⟨l.node, l.side, u, signal, net⟩ :: w.moments⟩ = .ok () w') ∧
    (next = none → w' = ⟨net', ⟨l.node, l.side, u, signal, net⟩ :: w.moments⟩) := by
  cases depth with
  | zero => cases h
  | succ depth =>
    unfold deliver at h
    obtain ⟨_, w₁, hcounted, hrest⟩ := Action.bind_eq_ok.1 h
    obtain ⟨net, hcount, rfl⟩ := onNetwork_eq_ok.1 hcounted
    obtain ⟨n, w₂, hnode, hrest⟩ := Action.bind_eq_ok.1 hrest
    obtain ⟨hn, rfl⟩ := Action.lift_eq_ok.1 hnode
    have hnoted : note l u signal { w with net } =
      .ok () ⟨net, ⟨l.node, l.side, u, signal, net⟩ :: w.moments⟩ := rfl
    rw [Action.bind_ok hnoted] at hrest
    obtain ⟨next, w₃, hacted, hrest⟩ := Action.bind_eq_ok.1 hrest
    obtain ⟨net', hact, rfl⟩ := onNetwork_eq_ok.1 hacted
    have hnet := countOperation_eq_ok hcount
    refine ⟨depth, n, net, net', next, rfl, Graph.node_eq_ok.1 hn, by rw [hnet], by rw [hnet], hact, ?_⟩
    refine ⟨?_, ?_⟩
    · rintro next rfl
      exact hrest
    · rintro rfl
      exact (EStateM.Result.ok.inj hrest).2.symm

/-- Some work went over the links `on`: all but the nodes of those links is as it was, and nothing was
noted but over them. -/
structure Along (g : Graph kind) (on : Link → Prop) (w w' : Watched kind) : Prop where
  owning : Network.Owning g w'.net
  memories : ∀ q, (∀ l, on l → l.node ≠ q) → w'.net.memories.get? q = w.net.memories.get? q
  tuples : ∀ {x t}, w.net.agenda.find? x = some t → (∀ l, on l → l.node ≠ t.node) →
    w'.net.agenda.find? x = some t
  moments : ∃ ms, w'.moments = ms ++ w.moments ∧ ∀ m ∈ ms, on m.link

namespace Along

theorem refl (h : Network.Owning g w.net) (on : Link → Prop) : Along g on w w where
  owning := h
  memories _ _ := rfl
  tuples ht _ := ht
  moments := ⟨[], rfl, fun m hm => by cases hm⟩

theorem mono (h : Along g on w w') (hle : ∀ l, on l → on' l) : Along g on' w w' where
  owning := h.owning
  memories q hq := h.memories q fun l hl => hq l (hle l hl)
  tuples ht hoff := h.tuples ht fun l hl => hoff l (hle l hl)
  moments := by
    obtain ⟨ms, hms, hon⟩ := h.moments
    exact ⟨ms, hms, fun m hm => hle _ (hon m hm)⟩

theorem trans (h : Along g on w w') (h' : Along g on w' w'') : Along g on w w'' where
  owning := h'.owning
  memories q hq := (h'.memories q hq).trans (h.memories q hq)
  tuples ht hoff := h'.tuples (h.tuples ht hoff) hoff
  moments := by
    obtain ⟨ms, hms, hon⟩ := h.moments
    obtain ⟨ms', hms', hon'⟩ := h'.moments
    refine ⟨ms' ++ ms, by rw [hms', hms, List.append_assoc], fun m hm => ?_⟩
    exact (List.mem_append.1 hm).elim (hon' m) (hon m)

/-- A tuple of a node above all that is still there. -/
theorem found (h : Along g on w w') {t : Tuple} (ht : w.net.agenda.find? u = some t)
    (habove : ∀ l, on l → g.layerOf t.node < g.layerOf l.node) : w'.net.agenda.find? u = some t :=
  h.tuples ht fun l hl he => Nat.lt_irrefl _ (he ▸ habove l hl)

/-- Nothing went over another link. -/
theorem sent_eq (h : Along g on w w') (hl : ¬ on l) : w'.sent l = w.sent l := by
  obtain ⟨ms, hms, hon⟩ := h.moments
  have hnone : ms.reverse.filter (fun m => m.link = l) = [] := by
    rw [List.filter_eq_nil_iff]
    intro m hm he
    exact hl (of_decide_eq_true he ▸ hon m (List.mem_reverse.1 hm))
  unfold sent
  rw [hms, List.reverse_append, List.filter_append, hnone, List.append_nil]

theorem received_eq (h : Along g on w w') (hl : ¬ on l) : w'.received l = w.received l :=
  congrArg (List.map Moment.message) (h.sent_eq hl)

end Along

/-- Over one link after the other. -/
theorem along_forM {step : Link → WatchedAction kind PUnit} {links : List Link}
    (hstep : ∀ l ∈ links, ∀ w w', Network.Owning g w.net → step l w = .ok () w' → Along g (g.Below l) w w')
    (h : Network.Owning g w.net) (hrun : links.forM step w = .ok () w') :
    Along g (fun l' => ∃ l ∈ links, g.Below l l') w w' := by
  induction links generalizing w with
  | nil =>
    cases hrun
    exact .refl h _
  | cons l rest ih =>
    obtain ⟨_, w₁, hfirst, hrest⟩ := Action.bind_eq_ok.1 hrun
    have h₁ := hstep l List.mem_cons_self w w₁ h hfirst
    refine (h₁.mono fun l' hb => ⟨l, List.mem_cons_self, hb⟩).trans ?_
    exact (ih (fun c hc => hstep c (List.mem_cons_of_mem l hc)) h₁.owning hrest).mono
      fun l' ⟨c, hc, hb⟩ => ⟨c, List.mem_cons_of_mem l hc, hb⟩

/-- The node of a link acts, and that is noted. -/
theorem along_act {net net' : Network kind} {next : Option Signal} (h : Network.Owning g w.net)
    (hn : g.nodes.get? l.node = some n) (hagenda : net.agenda = w.net.agenda)
    (hmemories : net.memories = w.net.memories)
    (hact : Network.act l.node n l.side u signal net = .ok next net') :
    Along g (· = l) w ⟨net', ⟨l.node, l.side, u, signal, net⟩ :: w.moments⟩ := by
  have howning : Network.Owning g net := h.of_later (hagenda.symm ▸ .start h.orderly) hmemories
  have hbeside := (howning.act hn l.side u signal).of_ok hact
  constructor
  · exact hbeside.owning
  · intro q hq
    rw [← hmemories]
    exact hbeside.memories q (Ne.symm (hq l rfl))
  · intro x t ht hoff
    exact hbeside.apart.tuples (hagenda ▸ ht) (Ne.symm (hoff l rfl))
  · exact ⟨[_], rfl, fun m hm => List.mem_singleton.1 hm ▸ rfl⟩

/-- A delivery goes over the link, and over links below it. -/
theorem along_deliver (h : Network.Owning g w.net) (hrun : deliver g depth signal u l w = .ok () w') :
    Along g (g.Below l) w w' := by
  induction depth generalizing signal l w w' with
  | zero => cases hrun
  | succ depth ih =>
    obtain ⟨depth', n, net, net', next, hdepth, hn, hagenda, hmemories, hact, hsome, hnone⟩ :=
      deliver_eq_ok hrun
    cases hdepth
    have hacted : Along g (g.Below l) w _ :=
      (along_act h hn hagenda hmemories hact).mono fun l' he => he ▸ .refl
    cases next with
    | none => exact hnone rfl ▸ hacted
    | some next =>
      obtain ⟨p, hp⟩ := Network.act_answers hact
      refine hacted.trans ((along_forM (fun c _ w w' h hrun => ih h hrun) hacted.owning
        (hsome next rfl)).mono ?_)
      rintro l' ⟨c, hc, hb⟩
      exact (Graph.Below.refl.step ⟨n, p, hn, hp, hc⟩).trans hb

/-- Of several links, something goes over one, after some of the others and before the rest. -/
theorem forM_through {step : Link → WatchedAction kind PUnit} {links : List Link} (hnodup : links.Nodup)
    (hc : c ∈ links)
    (hstep : ∀ l ∈ links, ∀ w w', Network.Owning g w.net → step l w = .ok () w' → Along g (g.Below l) w w')
    (h : Network.Owning g w.net) (hrun : links.forM step w = .ok () w') : ∃ w₁ w₂,
      Along g (g.Aside links c) w w₁ ∧ step c w₁ = .ok () w₂ ∧ Along g (g.Aside links c) w₂ w' := by
  induction links generalizing w with
  | nil => cases hc
  | cons l rest ih =>
    obtain ⟨hnot, hnodup'⟩ := List.nodup_cons.1 hnodup
    have hrest := fun x hx => hstep x (List.mem_cons_of_mem l hx)
    obtain ⟨_, w₁, hfirst, hothers⟩ := Action.bind_eq_ok.1 hrun
    have h₁ := hstep l List.mem_cons_self w w₁ h hfirst
    rcases List.mem_cons.1 hc with rfl | hc
    · refine ⟨w, w₁, .refl h _, hfirst, (along_forM hrest h₁.owning hothers).mono ?_⟩
      rintro l' ⟨x, hx, hb⟩
      exact ⟨x, List.mem_cons_of_mem c hx, fun he => hnot (he ▸ hx), hb⟩
    · obtain ⟨w₂, w₃, hbefore, hrunc, hafter⟩ := ih hnodup' hc hrest h₁.owning hothers
      have hmono : ∀ l', g.Aside rest c l' → g.Aside (l :: rest) c l' :=
        fun l' ⟨x, hx, hne, hb⟩ => ⟨x, List.mem_cons_of_mem l hx, hne, hb⟩
      refine ⟨w₂, w₃, (h₁.mono fun l' hb => ⟨l, List.mem_cons_self, ?_, hb⟩).trans (hbefore.mono hmono),
        hrunc, hafter.mono hmono⟩
      rintro rfl
      exact hnot hc

/-- A delivery is noted over its link, once. -/
theorem sent_deliver (hg : g.WellFormed) (h : Network.Owning g w.net)
    (hrun : deliver g depth signal u l w = .ok () w') : ∃ net : Network kind,
      net.agenda = w.net.agenda ∧ w'.sent l = w.sent l ++ [⟨l.node, l.side, u, signal, net⟩] := by
  obtain ⟨depth, n, net, net', next, rfl, hn, hagenda, hmemories, hact, hsome, hnone⟩ := deliver_eq_ok hrun
  have hnoted : sent ⟨net', ⟨l.node, l.side, u, signal, net⟩ :: w.moments⟩ l =
      w.sent l ++ [⟨l.node, l.side, u, signal, net⟩] := by
    unfold sent
    simp [List.filter_append, Moment.link]
  refine ⟨net, hagenda, ?_⟩
  cases next with
  | none => rw [hnone rfl, hnoted]
  | some next =>
    obtain ⟨p, hp⟩ := Network.act_answers hact
    have hbeyond := along_forM (fun c _ w w' h hrun => along_deliver h hrun)
      (along_act h hn hagenda hmemories hact).owning (hsome next rfl)
    rw [hbeyond.sent_eq, hnoted]
    rintro ⟨c, hc, hb⟩
    exact hg.beyond_ne ⟨n, p, hn, hp, hc⟩ hb rfl

theorem received_deliver (hg : g.WellFormed) (h : Network.Owning g w.net)
    (hrun : deliver g depth signal u l w = .ok () w') :
    w'.received l = w.received l ++ [(signal, u)] := by
  obtain ⟨net, -, hsent⟩ := sent_deliver hg h hrun
  simp [received, hsent, Moment.message]

/-- What a filter answers goes over a link to one of its children. -/
def relay (g : Graph kind) (depth : Nat) (u : TupleId) (c : Link) : Option Signal → WatchedAction kind Unit
  | some next => deliver g depth next u c
  | none => pure ()

theorem received_relay {next : Option Signal} (hg : g.WellFormed) (h : Network.Owning g w.net)
    (hrun : relay g depth u c next w = .ok () w') :
    w'.received c = w.received c ++ (next.map (·, u)).toList := by
  cases next with
  | none =>
    cases hrun
    simp
  | some next => exact received_deliver hg h hrun

/-- A signal about a tuple that satisfies the predicate of a filter, or does not, goes over a link to the
filter. The filter takes its turn. What it answers goes over the link `c` to one of its children, after
some of the others and before the rest. -/
theorem deliver_filter {p : TuplePredicate} {m : FilterMemory} {t : Tuple} {passes : Bool}
    (hg : g.WellFormed) (hn : g.nodes.get? l.node = some n) (hop : n.operator = .filter p)
    (hc : c ∈ n.children) (hm : w.net.memories.get? l.node = some (.filter m))
    (h : Network.Owning g w.net) (ht : w.net.agenda.find? u = some t) (hp : p.run t.facts = .ok passes)
    (hrun : deliver g depth signal u l w = .ok () w') :
    w'.net.memories.get? l.node = some (.filter (m.turn signal u passes).1) ∧
      ∃ depth' w₁ w₂, Along g (fun k => k = l ∨ g.Aside n.children c k) w w₁ ∧
        relay g depth' u c (m.turn signal u passes).2 w₁ = .ok () w₂ ∧
        Along g (g.Aside n.children c) w₂ w' := by
  obtain ⟨depth, n', net, net', next, rfl, hn', hagenda, hmemories, hact, hsome, hnone⟩ :=
    deliver_eq_ok hrun
  cases hn.symm.trans hn'
  have hacted := along_act h hn hagenda hmemories hact
  have hfacts : net.agenda.facts u = .ok t.facts := hagenda ▸ Agenda.facts_eq ht
  cases (Network.act_filter hop (hmemories.symm ▸ hm) hfacts hp).symm.trans hact
  have hturned : (net.memories.insert l.node (.filter (m.turn signal u passes).1)).get? l.node =
    some (.filter (m.turn signal u passes).1) := (Table.get?_insert ..).trans (if_pos rfl)
  cases hnext : (m.turn signal u passes).2 with
  | none =>
    obtain rfl := hnone hnext
    exact ⟨hturned, depth, _, _, hacted.mono fun _ => .inl, rfl, .refl hacted.owning _⟩
  | some next =>
    have hchildren := hsome next hnext
    refine ⟨?_, depth, ?_⟩
    · refine ((along_forM (fun x _ w w' h hrun => along_deliver h hrun) hacted.owning
        hchildren).memories l.node ?_).trans hturned
      rintro k ⟨x, hx, hb⟩
      exact hg.beyond_ne ⟨n, p, hn, hop, hx⟩ hb
    · obtain ⟨w₁, w₂, hbefore, hrunc, hafter⟩ := forM_through (hg.linked.children_nodup hn) hc
        (fun x _ w w' h hrun => along_deliver h hrun) hacted.owning hchildren
      exact ⟨w₁, w₂, (hacted.mono fun _ => .inl).trans (hbefore.mono fun _ => .inr), hrunc, hafter⟩

end Watched

end ConstraintStreams
