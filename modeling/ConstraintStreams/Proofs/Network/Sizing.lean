import ConstraintStreams.Proofs.Graph.Arities
import ConstraintStreams.Proofs.Network.Quiet
import ConstraintStreams.Proofs.Operator.Sizing

/-!
# Networks keep their sizes

In the network of a graph that can be built, every tuple has as many facts as its node says, whatever
was done before and whether or not it failed: a node is only told about tuples of the size of the parent
that the link comes from, and its operator makes of those what its arity counts.
-/

namespace ConstraintStreams

open ConstraintStreams.Action (Keeps Ends)
open Agenda (Later Carries Sized Belongs)
open Work (Named)

variable {kind : ScoreKind}

/-! ## Memories -/

namespace NodeMemory

/-- The tuples that the memory of a node names, and how many facts they have: with the sizes of the
parents, and that of the node. -/
def Names (sizes : List (Option Nat)) (arity : Nat) : NodeMemory kind → TupleId → Nat → Prop
  | .join m => fun u k => ∃ l r, sizes = [some l, some r] ∧ m.Names l r u k
  | .semijoin m => Named SemijoinMemory.Names arity m
  | .group m => Named GroupMemory.Lists arity m
  | .map m => Named MapMemory.Lists arity m
  | .flatten m => Named FlattenMemory.Lists arity m
  | .distinct m => Named DistinctMemory.Lists arity m
  | .concat m => Named ConcatMemory.Lists arity m
  | .source | .filter _ | .constraint _ => fun _ _ => False

/-- The groups of a memory fit the operator. -/
def Fits (op : Operator kind) : NodeMemory kind → Prop
  | .group m => ∀ key collector, op = .group key collector → m.Fits (key.map (·.run)) collector
  | _ => True

theorem names_new (op : Operator kind) (sizes : List (Option Nat)) (arity : Nat) (u : TupleId) (k : Nat) :
    ¬ (new op).Names sizes arity u k := by
  cases op with
  | source | filter | constraint => exact False.elim
  | join =>
    rintro ⟨l, r, -, h⟩
    cases h with
    | output h => rcases h with ⟨_, h, _⟩ | ⟨_, h, _⟩ <;> cases h
    | left h | right h =>
      obtain ⟨_, h⟩ := h
      cases h
  | semijoin =>
    rintro ⟨⟨_, h, _⟩ | h, -⟩
    · cases h
    · cases h
  | group | flatten | distinct =>
    rintro ⟨⟨_, h, _⟩, -⟩
    cases h
  | map | concat =>
    rintro ⟨h, -⟩
    cases h

theorem fits_new (op op' : Operator kind) : (new op).Fits op' := by
  cases op with
  | group => exact fun _ _ _ _ h => by cases h
  | _ => trivial

theorem fits_group_iff (m : GroupMemory) (key : Option (Handle (Facts → Except Error Fact)))
    (collector : Option Collector) :
    (group m : NodeMemory kind).Fits (.group key collector) ↔ m.Fits (key.map (·.run)) collector := by
  constructor
  · exact fun h => h key collector rfl
  · rintro h _ _ ⟨⟩
    exact h

end NodeMemory

/-! ## What comes over a link -/

/-- The parent of a node on one side. -/
theorem Blueprint.size_of_side {parents : List NodeId} {sizeOf : NodeId → Option Nat} {a : Option Nat}
    {q : NodeId} {side : Side} (h : (q, side) ∈ sides parents) (hsizes : parents.map sizeOf = [a]) :
    sizeOf q = a := by
  obtain ⟨p, rfl, hp⟩ := List.map_eq_singleton_iff.1 hsizes
  rw [List.mem_singleton.1 (mem_parents_of_sides h), hp]

/-- The parents of a node on two sides. -/
theorem Blueprint.size_of_sides {parents : List NodeId} {sizeOf : NodeId → Option Nat}
    {a b : Option Nat} {q : NodeId} {side : Side} (h : (q, side) ∈ sides parents)
    (hsizes : parents.map sizeOf = [a, b]) : sizeOf q = side.pick a b := by
  obtain ⟨p, rest, rfl, hp, hrest⟩ := List.map_eq_cons_iff.1 hsizes
  obtain ⟨p', rfl, hp'⟩ := List.map_eq_singleton_iff.1 hrest
  simp only [sides, List.mem_cons, Prod.mk.injEq, List.not_mem_nil, or_false] at h
  rcases h with ⟨rfl, rfl⟩ | ⟨rfl, rfl⟩
  · exact hp
  · exact hp'

namespace Network

variable {g : Graph kind} {net net' : Network kind} {p q : NodeId} {n : Node kind} {side : Side}
  {id : TupleId} {k : Nat} {held : TupleId → Nat → Prop}

/-- Every tuple has as many facts as its node says, and so has what the memories name, and what is
held. -/
structure Gauged (g : Graph kind) (held : TupleId → Nat → Prop) (net : Network kind) : Prop where
  orderly : net.agenda.Orderly
  sized : net.agenda.Sized g.arityOf?
  named : ∀ {p n m u k}, g.nodes.get? p = some n → net.memories.get? p = some m →
    m.Names (n.parents.map g.arityOf?) n.arity u k → Carries g.arityOf? k u net.agenda
  fits : ∀ {p n m}, g.nodes.get? p = some n → net.memories.get? p = some m → m.Fits n.operator
  held : ∀ {u k}, held u k → Carries g.arityOf? k u net.agenda

namespace Gauged

/-- Other names may be held. -/
theorem hold {held' : TupleId → Nat → Prop} (h : Gauged g held net)
    (hheld : ∀ {u k}, held' u k → Carries g.arityOf? k u net.agenda) : Gauged g held' net :=
  ⟨h.orderly, h.sized, h.named, h.fits, hheld⟩

/-- Less may be held. -/
theorem forget {held' : TupleId → Nat → Prop} (h : Gauged g held' net)
    (hle : ∀ u k, held u k → held' u k) : Gauged g held net :=
  h.hold fun hu => h.held (hle _ _ hu)

/-- Work on the agenda alone. -/
theorem of_later (h : Gauged g held net) (hlater : Later net.agenda net'.agenda)
    (hsized : net'.agenda.Sized g.arityOf?) (hmemories : net'.memories = net.memories) :
    Gauged g held net' where
  orderly := hlater.orderly
  sized := hsized
  named hn hm hu := (h.named hn (hmemories ▸ hm) hu).continues hlater.continues
  fits hn hm := h.fits hn (hmemories ▸ hm)
  held hu := (h.held hu).continues hlater.continues

theorem keeps_onAgenda {α : Type} {x : Action Agenda α} (hlater : ∀ g₀, Keeps (Later g₀) x)
    (hsized : ∀ agenda, (∀ {u k}, held u k → Carries g.arityOf? k u agenda) → agenda.Orderly →
      agenda.Sized g.arityOf? → Ends x agenda (fun _ => Sized g.arityOf?) (Sized g.arityOf?)) :
    Keeps (Gauged g held) (onAgenda x : NetworkAction kind α) := by
  intro net h
  have hboth := (hlater net.agenda net.agenda (.start h.orderly)).and
    (hsized net.agenda h.held h.orderly h.sized)
  refine Action.ends_within.2 (hboth.mono ?_ ?_)
  · rintro _ agenda ⟨hlater, hsized⟩
    exact h.of_later hlater hsized rfl
  · rintro agenda ⟨hlater, hsized⟩
    exact h.of_later hlater hsized rfl

/-- An operator that keeps the sizes keeps them in the network. -/
theorem onMemory {μ α : Type} {m : μ} {wrap : μ → NodeMemory kind}
    {names : μ → TupleId → Nat → Prop} {ok : μ → Prop} {x : Work μ α} (h : Gauged g held net)
    (hn : g.nodes.get? p = some n) (hm : net.memories.get? p = some (wrap m))
    (hnames : ∀ m u k, (wrap m).Names (n.parents.map g.arityOf?) n.arity u k ↔ names m u k)
    (hok : ∀ m, (wrap m).Fits n.operator ↔ ok m)
    (hx : Keeps (Work.Sizes g.arityOf? net.agenda names ok held) x) :
    Ends (Network.onMemory p m wrap x) net (fun _ => Gauged g held) (Gauged g held) := by
  have hstart : Work.Sizes g.arityOf? net.agenda names ok held ⟨m, net.agenda⟩ :=
    ⟨.start h.orderly, h.sized, fun hu => h.named hn hm ((hnames m _ _).2 hu),
      (hok m).1 (h.fits hn hm), h.held⟩
  have hput {w : Workbench μ} (hw : Work.Sizes g.arityOf? net.agenda names ok held w) :
      Gauged g held { net with
        agenda := w.agenda, memories := net.memories.insert p (wrap w.memory) } := by
    have hget (q : NodeId) : (net.memories.insert p (wrap w.memory)).get? q =
        if p = q then some (wrap w.memory) else net.memories.get? q := Table.get?_insert ..
    refine ⟨hw.later.orderly, hw.sized, fun {q nq mq u k} hnq hmq hu => ?_,
      fun {q nq mq} hnq hmq => ?_, hw.held⟩
    · replace hmq := (hget q).symm.trans hmq
      split at hmq
      · next hq =>
        subst hq
        cases hmq
        cases hn.symm.trans hnq
        exact hw.named ((hnames _ u k).1 hu)
      · exact (h.named hnq hmq hu).continues hw.later.continues
    · replace hmq := (hget q).symm.trans hmq
      split at hmq
      · next hq =>
        subst hq
        cases hmq
        cases hn.symm.trans hnq
        exact (hok _).2 hw.ok
      · exact h.fits hnq hmq
  exact Action.ends_within.2 ((hx _ hstart).mono (fun _ _ => hput) fun _ => hput)

/-! ## Deliveries -/

/-- A node that is told about a tuple of the size of its parent keeps the sizes. Only a filter passes
the signal on, and it has the size of its parent. -/
theorem act (hg : g.Measured) (h : Gauged g held net) (hn : g.nodes.get? p = some n)
    (hside : (q, side) ∈ Blueprint.sides n.parents) (hq : g.arityOf? q = some k) (hid : held id k)
    (signal : Signal) :
    Ends (Network.act p n side id signal) net
      (fun next net' => Gauged g held net' ∧ (next.isSome = true → k = n.arity)) (Gauged g held) := by
  have hmeasured := hg p n hn
  have hyields := hmeasured.yields
  have hp := Graph.arityOf?_eq hn
  have hone (hsizes : n.parents.map g.arityOf? = [some n.arity]) : k = n.arity :=
    Option.some.inj (hq.symm.trans (Blueprint.size_of_side hside hsizes))
  unfold Network.act
  rw [Action.ends_bind]
  refine (Network.memoryOf_ends p net).mono ?_ fun _ hsame => hsame ▸ h
  rintro m net ⟨rfl, hm⟩
  -- What an operator but a filter leaves is not passed on.
  have stays {μ : Type} {m : μ} {wrap : μ → NodeMemory kind} {x : Work μ Unit}
      (hx : Ends (Network.onMemory p m wrap x) net (fun _ => Gauged g held) (Gauged g held)) :
      Ends (do Network.onMemory p m wrap x; pure none : NetworkAction kind (Option Signal)) net
        (fun next net' => Gauged g held net' ∧ (next.isSome = true → k = n.arity)) (Gauged g held) := by
    rw [Action.ends_bind]
    exact hx.mono (fun _ _ h' => ⟨h', fun hsome => by cases hsome⟩) fun _ h' => h'
  split
  · next hop =>
    rw [hop] at hyields
    exact (h.onMemory hn hm (fun _ _ _ => Iff.rfl) (fun _ => Iff.rfl)
      (Work.sizes_of_still fun g => FilterMemory.keeps_accept _ _ _)).mono
      (fun _ _ h' => ⟨h', fun _ => hone hyields⟩) fun _ h' => h'
  · next hop =>
    rw [hop] at hyields
    obtain ⟨l, r, hsizes, harity⟩ := hyields
    have hpick : some k = side.pick (some l) (some r) :=
      hq.symm.trans (Blueprint.size_of_sides hside hsizes)
    have hk : k = side.pick l r := by
      cases side <;> exact Option.some.inj hpick
    refine stays (h.onMemory hn hm (fun m u j => ?_)
      (fun _ => Iff.rfl) (sizes_signalJoin (hp.trans (congrArg some harity)) _ (hk ▸ hid) _))
    constructor
    · rintro ⟨l', r', hsizes', h⟩
      cases hsizes.symm.trans hsizes'
      exact h
    · exact fun h => ⟨l, r, hsizes, h⟩
  · next hop =>
    rw [hop] at hyields
    obtain ⟨r, hsizes⟩ := hyields
    have hpick : some k = side.pick (some n.arity) r :=
      hq.symm.trans (Blueprint.size_of_sides hside hsizes)
    refine stays (h.onMemory hn hm (fun _ _ _ => Iff.rfl) (fun _ => Iff.rfl)
      (sizes_signalSemijoin _ _ (fun hne => ?_) _))
    have hk : k = n.arity := by
      cases side with
      | right => exact absurd rfl hne
      | only => exact Option.some.inj hpick
      | left => exact Option.some.inj hpick
    exact hk ▸ hid
  · next key collector m hop =>
    exact stays (h.onMemory hn hm (fun _ _ _ => Iff.rfl)
      (fun m => hop ▸ NodeMemory.fits_group_iff m key collector) (sizes_signalGroup _ _))
  · exact stays (h.onMemory hn hm (fun _ _ _ => Iff.rfl) (fun _ => Iff.rfl)
      (sizes_signalMap hp _ _ _))
  · next hop =>
    rw [hop] at hyields
    exact stays (h.onMemory hn hm (fun _ _ _ => Iff.rfl) (fun _ => Iff.rfl)
      (sizes_signalFlatten hp (hone hyields ▸ hid) _ _))
  · next hop =>
    rw [hop] at hyields
    exact stays (h.onMemory hn hm (fun _ _ _ => Iff.rfl) (fun _ => Iff.rfl)
      (sizes_signalDistinct hp (hone hyields ▸ hid) _))
  · next hop =>
    rw [hop] at hyields
    have hpick : some k = side.pick (some n.arity) (some n.arity) :=
      hq.symm.trans (Blueprint.size_of_sides hside hyields)
    have hk : k = n.arity := by
      cases side <;> exact Option.some.inj hpick
    exact stays (h.onMemory hn hm (fun _ _ _ => Iff.rfl) (fun _ => Iff.rfl)
      (sizes_signalConcat hp (hk ▸ hid) _ _))
  · exact stays (h.onMemory hn hm (fun _ _ _ => Iff.rfl) (fun _ => Iff.rfl)
      (Work.sizes_of_still fun g => keeps_signalConstraint _ _ _))
  · exact h

theorem keeps_deliver (hg : g.WellFormed) (hmeasured : g.Measured) (depth : Nat) (signal : Signal)
    {l : Link} (hn : g.nodes.get? p = some n) (hl : l ∈ n.children) (hid : held id n.arity) :
    Keeps (Gauged g held) (deliver g depth signal id l) := by
  induction depth generalizing signal p n l with
  | zero => exact .throw _
  | succ depth ih =>
    have count : Keeps (Gauged g held) (countOperation : NetworkAction kind Unit) :=
      .bind (.modify fun _ h => h.of_later (.start h.orderly) h.sized rfl) fun _ =>
        .get_bind fun _ _ => .lift _
    obtain ⟨c, hc, hside⟩ := (hg.linked.links hn).1 hl
    unfold deliver
    refine .bind count fun _ => .lift_bind fun c' hc' => ?_
    cases hc.symm.trans (Graph.node_eq_ok.1 hc')
    intro net h
    rw [Action.ends_bind]
    refine (h.act hmeasured hc hside (Graph.arityOf?_eq hn) hid signal).mono ?_ fun _ h' => h'
    rintro next net' ⟨h', harity⟩
    cases next with
    | none => exact h'
    | some next =>
      have hheld : held id c.arity := harity rfl ▸ hid
      exact Keeps.forM_mem (fun l' hl' => ih next hc hl' hheld) net' h'

theorem keeps_forward (hg : g.WellFormed) (hmeasured : g.Measured) (hn : g.nodes.get? p = some n)
    (hid : held id n.arity) (signal : Signal) : Keeps (Gauged g held) (forward g p signal id) := by
  refine .lift_bind fun n' hn' => ?_
  cases hn.symm.trans (Graph.node_eq_ok.1 hn')
  exact .forM_mem fun l hl => keeps_deliver hg hmeasured _ signal hn hl hid

/-! ## Turns -/

theorem keeps_setStage (id : TupleId) (stage : Stage) :
    Keeps (Gauged g held) (onAgenda (Agenda.setStage id stage) : NetworkAction kind Unit) :=
  keeps_onAgenda (fun _ agenda h => (Agenda.setStage_ends agenda id stage).mono
    (fun _ _ ⟨_, hreplaces⟩ => h.replaces hreplaces) fun _ hsame => hsame ▸ h)
    fun _ _ horderly hsized => hsized.setStage horderly id stage

theorem keeps_release (id : TupleId) :
    Keeps (Gauged g held) (onAgenda (Agenda.release id) : NetworkAction kind Unit) :=
  keeps_onAgenda (fun _ => .modify fun _ h => ⟨h.continues.release id, h.queued⟩)
    fun _ _ horderly hsized => hsized.release horderly id

theorem keeps_process (hg : g.WellFormed) (hmeasured : g.Measured) (hn : g.nodes.get? p = some n)
    (hid : held id n.arity) : Keeps (Gauged g held) (process g p id) := by
  have forward (signal : Signal) : Keeps (Gauged g held) (Network.forward g p signal id) :=
    keeps_forward hg hmeasured hn hid signal
  unfold process
  refine .get_bind fun net _ => .lift_bind fun stage _ => ?_
  split
  · exact .bind (keeps_setStage _ _) fun _ => forward _
  · exact .bind (keeps_setStage _ _) fun _ => forward _
  · exact .bind (forward _) fun _ => keeps_release _
  · exact keeps_release _
  all_goals exact .pure _

theorem keeps_refresh (hmeasured : g.Measured) (hn : g.nodes.get? p = some n) :
    Keeps (Gauged g held) (refresh g p) := by
  have hyields := (hmeasured p n hn).yields
  have hp := Graph.arityOf?_eq hn
  unfold refresh
  refine .lift_bind fun n' hn' => ?_
  cases hn.symm.trans (Graph.node_eq_ok.1 hn')
  intro net h
  rw [Action.ends_bind, Action.ends_get]
  split
  · next key collector m hop hm =>
    rw [hop] at hyields
    have harity : n.arity = (key.map (·.run)).toList.length + collector.toList.length := by
      rw [show n.arity = _ from hyields]
      cases key <;> rfl
    exact h.onMemory hn hm (fun _ _ _ => Iff.rfl)
      (fun m => hop ▸ NodeMemory.fits_group_iff m key collector) (GroupMemory.sizes_refresh hp harity)
  · next hm =>
    exact h.onMemory hn hm (fun _ _ _ => Iff.rfl) (fun _ => Iff.rfl)
      (SemijoinMemory.sizes_refresh hp _)
  · exact h

/-- What is taken from the queue of a node has its size. -/
theorem takeQueue (h : Gauged g held net) (hn : g.nodes.get? p = some n) :
    Ends (onAgenda (Agenda.takeQueue p) : NetworkAction kind _) net
      (fun queue => Gauged g fun u k => u ∈ queue ∧ k = n.arity ∨ held u k) (Gauged g held) := by
  have hlater : Ends (Agenda.takeQueue p) net.agenda (fun _ => Later net.agenda) (Later net.agenda) :=
    (Agenda.takeQueue_ends net.agenda p).mono (fun _ _ h' => (Later.start h.orderly).unmoved h'.2)
      fun _ hsame => by rw [hsame]; exact .start h.orderly
  refine Action.ends_within.2 ((hlater.and (h.sized.takeQueue p)).mono ?_ ?_)
  · rintro queue agenda ⟨hlater, hsized, hqueue⟩
    have hnow : Gauged g held { net with agenda } := h.of_later hlater hsized rfl
    refine hnow.hold fun hu => hu.elim ?_ hnow.held
    rintro ⟨hmem, rfl⟩
    exact ⟨p, Graph.arityOf?_eq hn, hqueue _ hmem⟩
  · rintro agenda ⟨hlater, hsized⟩
    exact h.of_later hlater hsized rfl

theorem keeps_drain (hg : g.WellFormed) (hmeasured : g.Measured) (hn : g.nodes.get? p = some n) :
    Keeps (Gauged g held) (drain g p) := by
  refine .bind (keeps_refresh hmeasured hn) fun _ net h => ?_
  rw [Action.ends_bind]
  refine (h.takeQueue hn).mono (fun queue net' h' => ?_) fun _ h' => h'
  have hprocess : Keeps (Gauged g fun u k => u ∈ queue ∧ k = n.arity ∨ held u k)
      (queue.forM (process g p)) :=
    .forM_mem fun u hu => keeps_process hg hmeasured hn (.inl ⟨hu, rfl⟩)
  rw [Action.ends_bind]
  exact (hprocess net' h').mono (fun _ _ h'' => h''.forget fun _ _ => .inr)
    fun _ h'' => h''.forget fun _ _ => .inr

/-- A flush keeps the sizes, whichever way it ends. -/
theorem keeps_flush (hg : g.WellFormed) (hmeasured : g.Measured) :
    Keeps (Gauged g held) (flush g) := by
  have drainAll {nodes : List NodeId} (hnodes : ∀ p ∈ nodes, ∃ n, g.nodes.get? p = some n) :
      Keeps (Gauged g held) (drainAll g nodes) := by
    induction nodes with
    | nil => exact .pure _
    | cons p rest ih =>
      obtain ⟨n, hn⟩ := hnodes p List.mem_cons_self
      exact .bind (keeps_drain hg hmeasured hn) fun _ =>
        .bind (ih fun q hq => hnodes q (List.mem_cons_of_mem p hq)) fun _ => .pure _
  refine .bind (.modify fun _ h => h.of_later (.start h.orderly) h.sized rfl) fun _ =>
    drainAll fun p hp => ?_
  obtain ⟨n, hn, -⟩ := Graph.mem_layers.1 hp
  exact ⟨n, hn⟩

/-! ## Other changes -/

/-- A source may get a tuple of one fact. -/
theorem insertSource (h : Gauged g held net) (hp : g.arityOf? p = some 1) (fact : Fact) :
    Ends (Network.insertSource p fact) net
      (fun o => Gauged g fun u k => u = o ∧ k = 1 ∨ held u k) (Gauged g held) := by
  have hkeeps : Keeps (Gauged g held) (Network.insertSource p fact) :=
    keeps_onAgenda (fun g₀ => (Later.outlasts g₀).create p [fact] .none)
      fun _ _ horderly hsized => hsized.create horderly hp .none
  have hmade : Ends (Network.insertSource p fact) net
      (fun o net' => Carries g.arityOf? 1 o net'.agenda) fun _ => True :=
    Action.ends_within.2 ((Agenda.create_ends net.agenda p [fact] .none).mono
      (fun _ _ hm => ⟨p, hp, .of_makes hm⟩) fun _ _ => trivial)
  refine ((hkeeps net h).and hmade).mono (fun o net' h' => ?_) fun _ h' => h'.1
  refine h'.1.hold fun hu => hu.elim ?_ h'.1.held
  rintro ⟨rfl, rfl⟩
  exact h'.2

theorem keeps_updateSource (hid : held id 1) (fact : Fact) :
    Keeps (Gauged g held) (updateSource id fact) :=
  keeps_onAgenda
    (fun g₀ => .bind ((Later.outlasts g₀).setFacts id [fact]) fun _ => (Later.outlasts g₀).update id)
    fun agenda hheld horderly hsized => by
      have hset := (hsized.setFacts horderly (hheld hid : Carries _ [fact].length id agenda)).and
        ((Later.outlasts agenda).setFacts id [fact] agenda (.start horderly))
      rw [Action.ends_bind]
      exact hset.mono (fun _ _ h => h.1.update h.2.orderly id) fun _ h => h.1

theorem keeps_retractSource (id : TupleId) : Keeps (Gauged g held) (retractSource id) :=
  keeps_onAgenda (fun g₀ => (Later.outlasts g₀).retract id)
    fun _ _ horderly hsized => hsized.retract horderly id

/-- A network that starts over has no tuples, and remembers none. -/
theorem reset (g : Graph kind) (net : Network kind) :
    Gauged g (fun _ _ => False) (Network.reset g net) := by
  obtain ⟨hblank, -⟩ := reset_agenda g net
  have hmemory {p : NodeId} {m : NodeMemory kind} (hm : (Network.reset g net).memories.get? p = some m) :
      ∃ n, g.nodes.get? p = some n ∧ NodeMemory.new n.operator = m :=
    Option.map_eq_some_iff.1 ((Table.get?_mapValues g.nodes _ p).symm.trans hm)
  refine ⟨⟨hblank.store, fun x t ht => ?_⟩, ⟨fun ht => ?_, fun hq hu => ?_⟩, fun _ hm hu => ?_,
    fun _ hm => ?_, False.elim⟩
  · rw [show _ = _ from hblank.find?_none x] at ht
    cases ht
  · rw [hblank.find?_none] at ht
    cases ht
  · rw [hblank.queues hq] at hu
    cases hu
  · obtain ⟨n, -, rfl⟩ := hmemory hm
    exact (NodeMemory.names_new _ _ _ _ _ hu).elim
  · obtain ⟨n, -, rfl⟩ := hmemory hm
    exact NodeMemory.fits_new _ _

/-- A ledger names no tuples. -/
theorem keeps_setWeight (p : NodeId) (weight : Score kind) :
    Keeps (Gauged g held) (setWeight g p weight) := by
  unfold setWeight
  refine .lift_bind fun c _ => .get_bind fun net _ => ?_
  split
  · intro net h
    have hput (l : Ledger kind) :
        Gauged g held { net with memories := net.memories.insert p (.constraint l) } := by
      refine ⟨h.orderly, h.sized, fun hn hm hu => ?_, fun hn hm => ?_, h.held⟩
      · rw [Table.get?_insert] at hm
        split at hm
        · cases hm
          exact hu.elim
        · exact h.named hn hm hu
      · rw [Table.get?_insert] at hm
        split at hm
        · cases hm
          trivial
        · exact h.fits hn hm
    refine Action.ends_within.2 ?_
    unfold Ends
    split
    · exact hput _
    · exact hput _
  · exact .pure _

end Gauged

end Network

end ConstraintStreams
