import ConstraintStreams.Proofs.Constraint.Ledger
import ConstraintStreams.Proofs.Graph.WellFormed
import ConstraintStreams.Proofs.Operator.Distinct
import ConstraintStreams.Proofs.Operator.Filter
import ConstraintStreams.Proofs.Operator.Flatten
import ConstraintStreams.Proofs.Operator.Group
import ConstraintStreams.Proofs.Operator.Join
import ConstraintStreams.Proofs.Operator.Mirror
import ConstraintStreams.Proofs.Operator.Semijoin

/-!
# The memory of any node

`NodeMemory.Valid` is what holds of the memory of a node between signals, whatever its operator, and
`NodeMemory.Since` adds, where it matters, what became of it since a flush began. `act_spec` and
`refresh_spec` put together what the operators do.
-/

namespace ConstraintStreams

/-- The errors that work on a network may end with, whatever the functions of the user do. -/
structure Error.Tolerates (E : Error → Prop) : Prop where
  limit : ∀ limit details, E (.resourceLimit limit details)
  overflow : ∀ site, E (.overflow site)
  arity : ∀ m n, E (.invalidArity m n)

/-- The functions of a joiner fail with errors of `E` only. -/
def Joiner.Safe (E : Error → Prop) : Joiner → Prop
  | .indexed left right =>
    (∀ facts e, left.run facts = .error e → E e) ∧ ∀ facts e, right.run facts = .error e → E e
  | .test _ accepts => ∀ l r e, accepts.run l r = .error e → E e

/-- The functions that an operator is given fail with errors of `E` only. -/
def Operator.Safe {kind : ScoreKind} (E : Error → Prop) : Operator kind → Prop
  | .source _ _ visibility =>
    ∀ predicate, visibility = some predicate → ∀ fact e, predicate fact = .error e → E e
  | .filter predicate => ∀ facts e, predicate.run facts = .error e → E e
  | .join joiners | .semijoin _ joiners => ∀ j ∈ joiners, j.Safe E
  | .group key collector =>
    (∀ f, key = some f → ∀ facts e, f.run facts = .error e → E e) ∧
      ∀ c, collector = some c → c.start.Safe E
  | .map mapper => ∀ facts e, mapper.run facts = .error e → E e
  | .flatten items => ∀ fact e, items.run fact = .error e → E e
  | .distinct | .concat => True
  | .constraint c =>
    (∀ weigher, c.weigher = some weigher → ∀ facts e, weigher facts = .error e → E e) ∧
      ∀ indicter, c.indicter = some indicter → ∀ facts e, indicter facts = .error e → E e

namespace Joiner

variable {E : Error → Prop} {joiners : List Joiner}

theorem safe_keyOn (h : ∀ j ∈ joiners, j.Safe E) (side : Side) (facts : Facts) (e : Error)
    (he : Joiner.keyOn joiners side facts = .error e) : E e := by
  have hleft : leftKey joiners facts = .error e → E e := by
    refine except_error_of_mapM fun f hf e' => ?_
    obtain ⟨j, hj, hjf⟩ := List.mem_filterMap.1 hf
    cases j with
    | indexed left right => cases hjf; exact (h _ hj).1 facts e'
    | test => cases hjf
  have hright : rightKey joiners facts = .error e → E e := by
    refine except_error_of_mapM fun f hf e' => ?_
    obtain ⟨j, hj, hjf⟩ := List.mem_filterMap.1 hf
    cases j with
    | indexed left right => cases hjf; exact (h _ hj).2 facts e'
    | test => cases hjf
  cases side with
  | right => exact hright he
  | _ => exact hleft he

theorem safe_accept (h : ∀ j ∈ joiners, j.Safe E) (l r : Facts) (e : Error)
    (he : accept joiners l r = .error e) : E e := by
  have hpasses : ∀ fs : List (Handle PairTest),
      (∀ f ∈ fs, ∀ e, f.run l r = .error e → E e) → passes fs l r = .error e → E e := by
    intro fs hfs he
    induction fs with
    | nil => cases he
    | cons f rest ih =>
      unfold passes at he
      rcases except_bind_eq_error.1 he with hf | ⟨b, -, he⟩
      · exact hfs f List.mem_cons_self e hf
      · cases b with
        | true => exact ih (fun f hf => hfs f (List.mem_cons_of_mem _ hf)) he
        | false => cases he
  refine hpasses (tests joiners) (fun f hf e' => ?_) he
  obtain ⟨j, hj, hjf⟩ := List.mem_filterMap.1 hf
  cases j with
  | indexed => cases hjf
  | test kind accepts => cases hjf; exact h _ hj l r e'

end Joiner

/-- The input of a signal comes from a side that the operator expects inputs from. -/
def Side.Fits {kind : ScoreKind} (side : Side) (op : Operator kind) : Prop :=
  op.inputs = 1 ∧ side = .only ∨ op.inputs = 2 ∧ side ≠ .only

namespace NodeMemory

variable {kind : ScoreKind}

/-- The inputs that a filter lets pass. -/
def passed : NodeMemory kind → List TupleId
  | .filter m => m.passed
  | _ => []

/-- The weight in force at a constraint. -/
def weight? (m : NodeMemory kind) : Option (Score kind) := m.ledger?.map (·.weight)

/-- What holds of the memory of a node between signals. -/
def Valid (op : Operator kind) (v : View) (out : TupleId → Option (Facts × Sources))
    (m : NodeMemory kind) : Prop :=
  match op, m with
  | .source .., .source => True
  | .filter predicate, .filter m => m.Valid predicate.run v
  | .join joiners, .join m =>
    JoinMemory.Valid joiners .left v (fun _ _ => False) out m.left m.right
  | .semijoin expected joiners, .semijoin m => m.Valid joiners expected m.dirty v out
  | .group key collector, .group m => m.Valid (key.map (·.run)) collector m.dirty v out
  | .map mapper, .map m => m.Valid mapper.run v out
  | .flatten items, .flatten m => m.Valid items.run v out
  | .distinct, .distinct m => m.Valid v out
  | .concat, .concat m => m.Valid v out
  | .constraint c, .constraint l => l.Valid c v
  | _, _ => False

/-- What became of the memory of a node since a flush began with the memory `past` and the outputs
`pastOut`. -/
def Since (op : Operator kind) (past : NodeMemory kind)
    (pastOut : TupleId → Option (Facts × Sources)) (v : View)
    (out : TupleId → Option (Facts × Sources)) (m : NodeMemory kind) : Prop :=
  match op, past, m with
  | .group key _, .group past, .group m => GroupMemory.Since (key.map (·.run)) past v m
  | .distinct, .distinct past, .distinct m => DistinctMemory.Since past pastOut v out m
  | .group .., _, _ | .distinct, _, _ => False
  | _, _, _ => True

variable {op : Operator kind} {v v' : View} {out : TupleId → Option (Facts × Sources)}
  {m past : NodeMemory kind} {pastOut : TupleId → Option (Facts × Sources)}

theorem Valid.fades (h : m.Valid op v out) (hv : View.Fades v v') : m.Valid op v' out := by
  unfold Valid at h
  split at h <;> first
    | exact h.elim
    | trivial
    | exact FilterMemory.Valid.fades h hv
    | exact JoinMemory.Valid.fades h hv
    | exact SemijoinMemory.Valid.fades h hv
    | exact GroupMemory.Valid.fades h hv
    | exact Mirror.fades h hv
    | exact FlattenMemory.Valid.fades h hv
    | exact DistinctMemory.Valid.fades h hv
    | exact Ledger.Valid.fades h hv

theorem Since.fades (h : Since op past pastOut v out m) (hv : View.Fades v v')
    (hrecent : v'.recent = v.recent) : Since op past pastOut v' out m := by
  cases op with
  | group key collector =>
    cases past <;> cases m <;> try exact h.elim
    exact GroupMemory.Since.fades h hv hrecent
  | distinct =>
    cases past <;> cases m <;> try exact h.elim
    exact DistinctMemory.Since.fades h hv hrecent
  | _ => trivial

/-- A new memory is that of a node which was told nothing. -/
theorem Valid.new (op : Operator kind) (hout : ∀ o, out o = none)
    (hv : ∀ side input, v.told side input = none) : (NodeMemory.new op).Valid op v out := by
  cases op with
  | source => trivial
  | filter => exact FilterMemory.Valid.empty hv
  | join => exact JoinMemory.Valid.empty hout hv
  | semijoin => exact SemijoinMemory.Valid.empty hout hv
  | group => exact GroupMemory.Valid.empty hout hv
  | map => exact Mirror.of_none (fun _ => rfl) hout hv
  | flatten => exact FlattenMemory.Valid.empty hout hv
  | distinct => exact DistinctMemory.Valid.empty hout hv
  | concat => exact Mirror.of_none (fun _ => rfl) hout hv
  | constraint c => exact Ledger.Valid.new c.weight hv

/-- When a flush begins, nothing has changed since. -/
theorem Since.start (h : m.Valid op v out) (hv : ∀ side input, ¬ v.recent side input) :
    Since op m out v out m := by
  unfold Valid at h
  split at h <;> first
    | exact h.elim
    | exact GroupMemory.Since.start hv
    | exact DistinctMemory.Since.start hv
    | trivial

end NodeMemory

/-! ## What nodes do -/

namespace Network

open NodeMemory (Valid Since)

variable {kind : ScoreKind} {E : Error → Prop} {net : Network kind} {node : NodeId} {n : Node kind}
  {m past : NodeMemory kind} {pastOut : TupleId → Option (Facts × Sources)} {v : View}
  {away : List TupleId} {side : Side} {input : TupleId} {signal : Signal} {t : Tuple}

/-- What a node has done, at most: its memory has changed, and some of its tuples. -/
structure Acted (node : NodeId) (away : List TupleId) (op : Operator kind) (past : NodeMemory kind)
    (pastOut : TupleId → Option (Facts × Sources)) (v : View) (m m' : NodeMemory kind)
    (net net' : Network kind) : Prop where
  memories : ∀ q, net'.memories.get? q = if node = q then some m' else net.memories.get? q
  sound : net'.agenda.Sound away
  evolves : Agenda.Evolves node net.agenda net'.agenda
  valid : Valid op v (net'.agenda.openAt node) m'
  since : Since op past pastOut v (net'.agenda.openAt node) m'
  weight : m'.weight? = m.weight?

theorem memoryOf_eq (hm : net.memories.get? node = some m)
    {Q : NodeMemory kind → Network kind → Prop} :
    Action.Ensures E (memoryOf node) net Q ↔ Q m net := by
  unfold memoryOf
  rw [Action.ensures_bind, Action.ensures_get, hm]
  exact Action.ensures_pure

/-- On each signal, the operator of a node brings its memory and its tuples up to date, and a filter
tells what came of it. -/
theorem act_spec (hm : net.memories.get? node = some m) (hsound : net.agenda.Sound away)
    (hreg : n.operator.ownsTuples = true → ∃ queue, net.agenda.queues.get? node = some queue)
    (hfeeds : net.agenda.Feeds node v) (hv : Valid n.operator v (net.agenda.openAt node) m)
    (hs : Since n.operator past pastOut v (net.agenda.openAt node) m)
    (hside : side.Fits n.operator) (hexpects : v.Expects signal side input)
    (hquiet : ¬ v.recent side input) (ht : net.agenda.find? input = some t) (hne : t.node ≠ node)
    (hids : ∀ o, net.agenda.find? o = none → pastOut o = none)
    (hsafe : n.operator.Safe E) (hE : Error.Tolerates E) :
    Action.Ensures E (act node n side input signal) net fun next net' => ∃ m',
      Acted node away n.operator past pastOut (v.after signal side input t.facts) m m' net net' ∧
        FilterMemory.Tells input m.passed m'.passed next := by
  have idle : FilterMemory.Tells input [] [] none := ⟨by simp, by simp, fun _ _ => Iff.rfl⟩
  unfold act
  rw [Action.ensures_bind, memoryOf_eq hm]
  obtain ⟨op, parents, children, arity, layer⟩ := n
  dsimp only at hreg hv hs hside hsafe ⊢
  -- A node that owns tuples works at a bench.
  have bench (h : op.ownsTuples = true) : Bench node away net.agenda net.agenda :=
    .start hsound (hreg h)
  -- What is done at the bench is put back into the network.
  have owner {μ : Type} {mem : μ} {wrap : μ → NodeMemory kind} {x : Work μ Unit}
      (hpassed : m.passed = [] ∧ ∀ w, (wrap w).passed = [])
      (hweight : m.weight? = none ∧ ∀ w, (wrap w).weight? = none)
      (hx : Action.Ensures E x ⟨mem, net.agenda⟩ fun _ w' => Bench node away net.agenda w'.agenda ∧
        Valid op (v.after signal side input t.facts) (w'.agenda.openAt node) (wrap w'.memory) ∧
        Since op past pastOut (v.after signal side input t.facts) (w'.agenda.openAt node)
          (wrap w'.memory)) :
      Action.Ensures E (do onMemory node mem wrap x; pure none) net fun next net' => ∃ m',
        Acted node away op past pastOut (v.after signal side input t.facts) m m' net net' ∧
          FilterMemory.Tells input m.passed m'.passed next := by
    rw [Action.ensures_bind]
    refine Action.ensures_within.2 (hx.mono fun _ w' ⟨hb, hv', hs'⟩ => ?_)
    refine ⟨wrap w'.memory, ⟨(net.memories.get?_insert node · _), hb.sound, hb.evolves, hv', hs', ?_⟩, ?_⟩
    · rw [hweight.1, hweight.2]
    · rw [hpassed.1, hpassed.2]
      exact idle
  have hone (h : op.inputs = 1) : side = .only := by
    rcases hside with ⟨-, h'⟩ | ⟨h', -⟩
    · exact h'
    · omega
  have htwo (h : op.inputs = 2) : side ≠ .only := by
    rcases hside with ⟨h', -⟩ | ⟨-, h'⟩
    · omega
    · exact h'
  cases op with
  | source =>
    rcases hside with ⟨h, -⟩ | ⟨h, -⟩ <;> cases h
  | filter predicate =>
    cases m <;> try exact hv.elim
    next m =>
    obtain rfl := hone rfl
    refine Action.ensures_within.2 ((FilterMemory.signal_spec hv hexpects ht hsafe).mono
      fun next w' ⟨hg, hv', htells⟩ => ?_)
    obtain ⟨m', g'⟩ := w'
    obtain rfl := hg
    exact ⟨.filter m', ⟨(net.memories.get?_insert node · _), hsound, .refl _ _, hv', trivial, rfl⟩, htells⟩
  | join joiners =>
    cases m <;> try exact hv.elim
    next m =>
    exact owner ⟨rfl, fun _ => rfl⟩ ⟨rfl, fun _ => rfl⟩ ((JoinMemory.signal_spec (bench rfl) hfeeds hv
      (htwo rfl) hexpects ht hne (Joiner.safe_accept hsafe) (Joiner.safe_keyOn hsafe side)
      hE.limit).mono fun _ w' ⟨hb, hv'⟩ => ⟨hb, hv', trivial⟩)
  | semijoin expected joiners =>
    cases m <;> try exact hv.elim
    next m =>
    exact owner ⟨rfl, fun _ => rfl⟩ ⟨rfl, fun _ => rfl⟩ ((SemijoinMemory.signal_spec (bench rfl) hfeeds
      hv (htwo rfl) hexpects ht hne (Joiner.safe_accept hsafe) (Joiner.safe_keyOn hsafe .left)
      (Joiner.safe_keyOn hsafe .right)).mono fun _ w' ⟨hb, hv'⟩ => ⟨hb, hv', trivial⟩)
  | group key collector =>
    cases m <;> try exact hv.elim
    next m =>
    obtain rfl := hone rfl
    have hkey : ∀ f facts e, key.map (·.run) = some f → f facts = .error e → E e := by
      intro f facts e hf he
      obtain ⟨h, hk, rfl⟩ := Option.map_eq_some_iff.1 hf
      exact hsafe.1 h hk facts e he
    cases past <;> try exact hs.elim
    exact owner ⟨rfl, fun _ => rfl⟩ ⟨rfl, fun _ => rfl⟩ (GroupMemory.signal_spec (bench rfl) hv hs
      hexpects hquiet ht hne hkey hsafe.2 hE.overflow)
  | map mapper =>
    cases m <;> try exact hv.elim
    next m =>
    obtain rfl := hone rfl
    exact owner ⟨rfl, fun _ => rfl⟩ ⟨rfl, fun _ => rfl⟩ ((MapMemory.signal_spec (bench rfl) hv hexpects
      ht hne hE.limit hE.arity hsafe).mono fun _ w' ⟨hb, hv'⟩ => ⟨hb, hv', trivial⟩)
  | flatten items =>
    cases m <;> try exact hv.elim
    next m =>
    obtain rfl := hone rfl
    exact owner ⟨rfl, fun _ => rfl⟩ ⟨rfl, fun _ => rfl⟩ ((FlattenMemory.signal_spec (bench rfl) hv
      hexpects ht hne hE.limit hE.arity hsafe).mono fun _ w' ⟨hb, hv'⟩ => ⟨hb, hv', trivial⟩)
  | distinct =>
    cases m <;> try exact hv.elim
    next m =>
    obtain rfl := hone rfl
    cases past <;> try exact hs.elim
    exact owner ⟨rfl, fun _ => rfl⟩ ⟨rfl, fun _ => rfl⟩ (DistinctMemory.signal_spec (bench rfl) hv hs
      hexpects hquiet ht hne hE.limit hids)
  | concat =>
    cases m <;> try exact hv.elim
    next m =>
    exact owner ⟨rfl, fun _ => rfl⟩ ⟨rfl, fun _ => rfl⟩ ((ConcatMemory.signal_spec (bench rfl) hv
      hexpects ht hne hE.limit).mono fun _ w' ⟨hb, hv'⟩ => ⟨hb, hv', trivial⟩)
  | constraint c =>
    cases m <;> try exact hv.elim
    next l =>
    obtain rfl := hone rfl
    have hweigher : ∀ facts e, c.matchWeight facts = .error e → E e := by
      intro facts e he
      unfold Constraint.matchWeight at he
      split at he
      · next weigher hw => exact hsafe.1 weigher hw facts e he
      · cases he
    rw [Action.ensures_bind]
    refine Action.ensures_within.2 ((Ledger.signal_spec hv hexpects ht hweigher hE.overflow).mono
      fun _ w' ⟨hg, hweight, hv'⟩ => ?_)
    obtain ⟨l', g'⟩ := w'
    obtain rfl := hg
    refine ⟨.constraint l', ⟨(net.memories.get?_insert node · _), hsound, .refl _ _, hv', trivial, ?_⟩, idle⟩
    exact congrArg some hweight

/-- Refreshing a node brings its tuples up to date, and leaves nothing to settle. -/
theorem refresh_spec {g : Graph kind} (hn : g.nodes.get? node = some n)
    (hm : net.memories.get? node = some m) (hsound : net.agenda.Sound away)
    (hreg : n.operator.ownsTuples = true → ∃ queue, net.agenda.queues.get? node = some queue)
    (hfeeds : net.agenda.Feeds node v) (hv : Valid n.operator v (net.agenda.openAt node) m)
    (hs : Since n.operator past pastOut v (net.agenda.openAt node) m)
    (hE : Error.Tolerates E) :
    Action.Ensures E (refresh g node) net fun _ net' => ∃ m',
      Acted node away n.operator past pastOut v m m' net net' ∧ m'.passed = m.passed ∧
        m'.hasDirty = false ∧ (n.operator.inputs = 0 → net'.agenda = net.agenda) := by
  have hnode : g.node node = .ok n := by simp [Graph.node, hn]
  unfold refresh
  rw [Action.ensures_bind, Action.ensures_lift_of_ok hnode, Action.ensures_bind, Action.ensures_get,
    hm]
  obtain ⟨op, parents, children, arity, layer⟩ := n
  dsimp only at hreg hv hs ⊢
  have bench (h : op.ownsTuples = true) : Bench node away net.agenda net.agenda :=
    .start hsound (hreg h)
  cases op with
  | group key collector =>
    cases m <;> try exact hv.elim
    next m =>
    cases past <;> try exact hs.elim
    refine Action.ensures_within.2 ((GroupMemory.refresh_spec (bench rfl) hv hs hE.limit).mono
      fun _ w' ⟨hb, hdirty, hv', hs'⟩ => ?_)
    refine ⟨.group w'.memory, ⟨(net.memories.get?_insert node · _), hb.sound, hb.evolves, ?_, hs', rfl⟩,
      rfl, ?_, fun h => (nomatch h)⟩
    · rw [← hdirty] at hv'
      exact hv'
    · simp [NodeMemory.hasDirty, GroupMemory.hasDirty, hdirty]
  | semijoin expected joiners =>
    cases m <;> try exact hv.elim
    next m =>
    refine Action.ensures_within.2 ((SemijoinMemory.refresh_spec (bench rfl) hfeeds hv hE.limit).mono
      fun _ w' ⟨hb, hdirty, hv'⟩ => ?_)
    refine ⟨.semijoin w'.memory, ⟨(net.memories.get?_insert node · _), hb.sound, hb.evolves, ?_, trivial,
      rfl⟩, rfl, ?_, fun h => (nomatch h)⟩
    · rw [← hdirty] at hv'
      exact hv'
    · simp [NodeMemory.hasDirty, SemijoinMemory.hasDirty, hdirty]
  | _ =>
    refine ⟨m, ⟨fun q => ?_, hsound, .refl _ _, hv, hs, rfl⟩, rfl, ?_, fun _ => rfl⟩
    · split
      · next he => rw [← he, hm]
      · rfl
    · cases m <;> first | rfl | exact hv.elim

end Network

end ConstraintStreams
