import ConstraintStreams.Proofs.Graph.Searching
import ConstraintStreams.Proofs.Network.Forwarding
import ConstraintStreams.Proofs.Network.Limiting

/-!
# Flushes come to an end

A flush as a machine that keeps a stack of what is still to be done: nodes that have their turn, tuples
that they deal with, and calls that tell of a tuple over some links. When a filter passes on what it was
told, a call is put on top of the one that told it. Nothing bounds how high the calls pile up, and nothing
says that the stack is ever empty. `Runs` says that it is, after the chores of a log.

Links lead to higher layers. So on a graph that can be built no more calls are under way than there are
layers, a tuple goes over no link twice, and every flush comes to an end, with the outcome of
`Network.flush`. The limit on deliveries has no part in that.
-/

namespace ConstraintStreams

variable {kind : ScoreKind}

/-- Something that is to be done in a flush. -/
inductive Chore
  /-- A node has its turn. -/
  | drain (node : NodeId)
  /-- A node deals with a tuple of its queue. -/
  | process (node : NodeId) (id : TupleId)
  /-- A call tells of a tuple over links, one after the other. -/
  | tell (signal : Signal) (id : TupleId) (links : List Link)
  /-- A tuple is given up. -/
  | release (id : TupleId)

namespace Chore

/-- The link over which a call tells next. -/
def link? : Chore → Option Link
  | tell _ _ (l :: _) => some l
  | _ => none

def isCall : Chore → Bool
  | tell .. => true
  | _ => false

def isProcess : Chore → Bool
  | process .. => true
  | _ => false

/-- The calls among some chores. -/
def calls (ts : List Chore) : Nat := ts.countP isCall

/-- The links that are gone over when chores are carried out, in order. -/
def trail (log : List Chore) : List Link := log.filterMap link?

/-- The tuples that are dealt with when chores are carried out. -/
def processed (log : List Chore) : Nat := log.countP isProcess

theorem trail_cons {t : Chore} (ht : t.isCall = false) (log : List Chore) :
    trail (t :: log) = trail log := by
  cases t <;> first | rfl | cases ht

theorem calls_append (ts us : List Chore) : calls (ts ++ us) = calls ts + calls us :=
  List.countP_append

theorem calls_map {α : Type} {f : α → Chore} (hf : ∀ a, (f a).isCall = false) (as : List α) :
    calls (as.map f) = 0 := by
  simp [calls, hf, List.countP_map, Function.comp_def]

theorem trail_append (log log' : List Chore) : trail (log ++ log') = trail log ++ trail log' :=
  List.filterMap_append

theorem processed_append (log log' : List Chore) :
    processed (log ++ log') = processed log + processed log' :=
  List.countP_append

end Chore

open Chore (calls trail processed)

namespace Network

/-- Goes over a link: the delivery is counted, and the node of the link acts. The answer is what the node
passes on, and the links for it. -/
def goOver (g : Graph kind) (signal : Signal) (id : TupleId) (l : Link) :
    NetworkAction kind (Option (Signal × List Link)) := do
  countOperation
  let n ← g.node l.node
  return (← act l.node n l.side id signal).map fun next => (next, n.children)

/-- What a chore does at once. The answer is what it leaves to be done before anything else. -/
def perform (g : Graph kind) : Chore → NetworkAction kind (List Chore)
  | .drain p => do
    let queue ← take g p
    pure (queue.map (.process p))
  | .process p id => do
    match ← (← get).agenda.stage id with
    | .creating =>
      onAgenda (Agenda.setStage id .settled)
      pure [.tell .insert id (← g.node p).children]
    | .updating =>
      onAgenda (Agenda.setStage id .settled)
      pure [.tell .update id (← g.node p).children]
    | .dying => pure [.tell .retract id (← g.node p).children, .release id]
    | .aborting => pure [.release id]
    | .settled | .dead => pure []
  | .tell _ _ [] => pure []
  | .tell signal id (l :: rest) => do
    match ← goOver g signal id l with
    | some (next, links) => pure [.tell next id links, .tell signal id rest]
    | none => pure [.tell signal id rest]
  | .release id => do
    onAgenda (Agenda.release id)
    pure []

/-- The chores on a stack are carried out from the top until none is left or one fails, and no more than
`d` calls are under way at any time. The log lists the chores as they are carried out. -/
inductive Runs (g : Graph kind) (d : Nat) : List Chore → Network kind → List Chore →
    EStateM.Result Error (Network kind) Unit → Prop
  | done {net : Network kind} : Runs g d [] net [] (.ok () net)
  | fails {t : Chore} {ts : List Chore} {net net' : Network kind} {e : Error} :
    calls (t :: ts) ≤ d → perform g t net = .error e net' → Runs g d (t :: ts) net [t] (.error e net')
  | next {t : Chore} {ts left log : List Chore} {net net' : Network kind}
    {r : EStateM.Result Error (Network kind) Unit} : calls (t :: ts) ≤ d →
    perform g t net = .ok left net' → Runs g d (left ++ ts) net' log r →
    Runs g d (t :: ts) net (t :: log) r

variable {g : Graph kind} {d d' D depth : Nat} {t : Chore} {ts us left log log' : List Chore}
  {net net' : Network kind} {r : EStateM.Result Error (Network kind) Unit} {e : Error}
  {p : NodeId} {n : Node kind} {l : Link} {links inner outer : List Link}

namespace Runs

theorem mono (h : Runs g d ts net log r) (hd : d ≤ D) : Runs g D ts net log r := by
  induction h with
  | done => exact .done
  | fails hcalls hperform => exact .fails (Nat.le_trans hcalls hd) hperform
  | next hcalls hperform _ ih => exact .next (Nat.le_trans hcalls hd) hperform ih

/-- There is one way in which chores are carried out. -/
theorem unique {r' : EStateM.Result Error (Network kind) Unit} (h : Runs g d ts net log r)
    (h' : Runs g d' ts net log' r') : log = log' ∧ r = r' := by
  induction h generalizing log' with
  | done =>
    cases h'
    exact ⟨rfl, rfl⟩
  | fails _ hperform =>
    cases h' with
    | fails _ hperform' =>
      cases hperform.symm.trans hperform'
      exact ⟨rfl, rfl⟩
    | next _ hperform' _ => cases hperform.symm.trans hperform'
  | next _ hperform _ ih =>
    cases h' with
    | fails _ hperform' => cases hperform.symm.trans hperform'
    | next _ hperform' hrest =>
      cases hperform.symm.trans hperform'
      obtain ⟨rfl, rfl⟩ := ih hrest
      exact ⟨rfl, rfl⟩

/-- What is on top of a stack is carried out first. -/
theorem append (h : Runs g d ts net log (.ok () net')) (h' : Runs g D us net' log' r)
    (hd : d + calls us ≤ D) : Runs g D (ts ++ us) net (log ++ log') r := by
  generalize hend : EStateM.Result.ok () net' = r' at h
  induction h with
  | done =>
    cases hend
    exact h'
  | fails => cases hend
  | @next t ts left log _ _ _ hcalls hperform _ ih =>
    have hheight : calls (t :: (ts ++ us)) ≤ D := by
      rw [← List.cons_append, Chore.calls_append]
      omega
    show Runs g D (t :: (ts ++ us)) _ (t :: (log ++ log')) r
    refine .next hheight hperform ?_
    rw [← List.append_assoc]
    exact ih hend

/-- Where it fails, nothing of what is below is carried out. -/
theorem append_error (h : Runs g d ts net log (.error e net')) (hd : d + calls us ≤ D) :
    Runs g D (ts ++ us) net log (.error e net') := by
  generalize hend : EStateM.Result.error e net' = r' at h
  have hheight {t : Chore} {ts : List Chore} (hcalls : calls (t :: ts) ≤ d) :
      calls (t :: (ts ++ us)) ≤ D := by
    rw [← List.cons_append, Chore.calls_append]
    omega
  induction h with
  | done => cases hend
  | fails hcalls hperform =>
    cases hend
    exact .fails (hheight hcalls) hperform
  | @next t ts _ log _ _ r hcalls hperform _ ih =>
    show Runs g D (t :: (ts ++ us)) _ (t :: log) r
    refine .next (hheight hcalls) hperform ?_
    rw [← List.append_assoc]
    exact ih hend

end Runs

/-! ## Calls -/

/-- A delivery goes over its link, and then over those on which the node there passes something on. -/
theorem deliver_succ (g : Graph kind) (depth : Nat) (signal : Signal) (id : TupleId) (l : Link)
    (net : Network kind) :
    deliver g (depth + 1) signal id l net = match goOver g signal id l net with
      | .error e net' => .error e net'
      | .ok none net' => .ok () net'
      | .ok (some (next, links)) net' => links.forM (deliver g depth next id) net' := by
  obtain ⟨node, side⟩ := l
  have hunfold : deliver g (depth + 1) signal id ⟨node, side⟩ = (do
      match ← goOver g signal id ⟨node, side⟩ with
      | some (next, links) => links.forM (deliver g depth next id)
      | none => pure ()) := by
    unfold goOver
    simp only [bind_assoc]
    refine bind_congr fun _ => bind_congr fun n => bind_congr fun next => ?_
    cases next <;> rfl
  rw [hunfold]
  cases hgo : goOver g signal id ⟨node, side⟩ net with
  | error e net' => exact Action.bind_error hgo
  | ok answer net' =>
    refine (Action.bind_ok hgo).trans ?_
    cases answer <;> rfl

theorem of_goOver {signal next : Signal} {id : TupleId}
    (h : goOver g signal id l net = .ok (some (next, links)) net') :
    ∃ n f, g.nodes.get? l.node = some n ∧ n.operator = .filter f ∧ links = n.children := by
  unfold goOver at h
  obtain ⟨_, net₁, -, h⟩ := Action.bind_eq_ok.1 h
  obtain ⟨n, net₂, hfound, h⟩ := Action.bind_eq_ok.1 h
  obtain ⟨answer, net₃, hact, h⟩ := Action.bind_eq_ok.1 h
  obtain ⟨hn, rfl⟩ := Action.lift_eq_ok.1 hfound
  cases answer with
  | none => cases h
  | some signal =>
    cases h
    obtain ⟨f, hf⟩ := act_answers hact
    exact ⟨n, f, Graph.node_eq_ok.1 hn, hf, rfl⟩

/-- Links that are gone over from some links on: those or links below them, and none of them twice. -/
structure Tidy (g : Graph kind) (links trail : List Link) : Prop where
  nodup : trail.Nodup
  below : ∀ m ∈ trail, ∃ l ∈ links, g.Below l m

theorem Tidy.nil : Tidy g links [] := ⟨List.nodup_nil, nofun⟩

/-- What goes on from a link stays below it, and so does not meet what goes over its siblings. -/
theorem Tidy.cons (hg : g.WellFormed) (hleads : ∀ m ∈ l :: links, g.Leads p m)
    (hnodup : (l :: links).Nodup) {passed : List Link} (hpassed : ∀ c ∈ passed, g.Passes l c)
    (hinner : Tidy g passed inner) (houter : Tidy g links outer) :
    Tidy g (l :: links) (l :: (inner ++ outer)) := by
  obtain ⟨hl, -⟩ := List.nodup_cons.1 hnodup
  have hbeyond : ∀ m ∈ inner, ∃ c, g.Passes l c ∧ g.Below c m := fun m hm => by
    obtain ⟨c, hc, hb⟩ := hinner.below m hm
    exact ⟨c, hpassed c hc, hb⟩
  have haside : ∀ m ∈ outer, ¬ g.Below l m := fun m hm hb => by
    obtain ⟨l', hl', hb'⟩ := houter.below m hm
    have hsame := hg.siblings_disjoint (hleads l List.mem_cons_self)
      (hleads l' (List.mem_cons_of_mem _ hl')) hb hb'
    exact hl (hsame ▸ hl')
  constructor
  · rw [List.nodup_cons, List.mem_append, List.nodup_append']
    refine ⟨?_, hinner.nodup, houter.nodup, fun m hm hm' => ?_⟩
    · rintro (hm | hm)
      · obtain ⟨c, hc, hb⟩ := hbeyond l hm
        exact Nat.lt_irrefl _ (hg.beyond_lt hc hb)
      · exact haside l hm .refl
    · obtain ⟨c, hc, hb⟩ := hbeyond m hm
      exact haside m hm' ((Graph.Below.refl.step hc).trans hb)
  · intro m hm
    rcases List.mem_cons.1 hm with rfl | hm
    · exact ⟨m, List.mem_cons_self, .refl⟩
    · rcases List.mem_append.1 hm with hm | hm
      · obtain ⟨c, hc, hb⟩ := hbeyond m hm
        exact ⟨l, List.mem_cons_self, (Graph.Below.refl.step hc).trans hb⟩
      · obtain ⟨l', hl', hb⟩ := houter.below m hm
        exact ⟨l', List.mem_cons_of_mem _ hl', hb⟩

/-- A call comes to an end. The calls on top of it are at nodes of ever higher layers, and there are not
many of these left; so `deliver` has depth enough to do as the calls do. -/
theorem runs_tell (hg : g.WellFormed) (hd : g.height ≤ g.layerOf p + 1 + d) (hdepth : d ≤ depth)
    (hleads : ∀ l ∈ links, g.Leads p l) (hnodup : links.Nodup) (signal : Signal) (id : TupleId)
    (net : Network kind) : ∃ log, Runs g (d + 1) [.tell signal id links] net log
      (links.forM (deliver g depth signal id) net) ∧ Tidy g links (trail log) := by
  induction d using Nat.strongRecOn generalizing p depth links signal net with
  | ind d ih =>
    induction links generalizing net with
    | nil => exact ⟨_, .next (Nat.le_add_left 1 d) rfl .done, .nil⟩
    | cons l rest ihrest =>
      obtain ⟨c, hc, -, hlt⟩ := hg.target (hleads l List.mem_cons_self)
      have hheight := Graph.layer_lt_height hc
      obtain ⟨d, rfl⟩ : ∃ d', d = d' + 1 := Nat.exists_eq_succ_of_ne_zero (by omega)
      obtain ⟨depth, rfl⟩ : ∃ k, depth = k + 1 := Nat.exists_eq_succ_of_ne_zero (by omega)
      have hrest := ihrest (fun l hl => hleads l (List.mem_cons_of_mem _ hl)) hnodup.of_cons
      have hone : calls [.tell signal id (l :: rest)] ≤ d + 1 + 1 := Nat.le_add_left 1 _
      have hdeliver := deliver_succ g depth signal id l net
      show ∃ log, Runs g _ _ net log ((do
        deliver g (depth + 1) signal id l
        rest.forM (deliver g (depth + 1) signal id)) net) ∧ _
      cases hgo : goOver g signal id l net with
      | error e net₁ =>
        rw [hgo] at hdeliver
        rw [Action.bind_error hdeliver]
        exact ⟨_, .fails hone (Action.bind_error hgo),
          .cons hg hleads hnodup (List.forall_mem_nil _) .nil .nil⟩
      | ok answer net₁ =>
        rw [hgo] at hdeliver
        cases answer with
        | none =>
          obtain ⟨log, hrun, houter⟩ := hrest net₁
          rw [Action.bind_ok hdeliver]
          exact ⟨_, .next hone (Action.bind_ok hgo) hrun,
            .cons hg hleads hnodup (List.forall_mem_nil _) .nil houter⟩
        | some answer =>
          obtain ⟨next, passed⟩ := answer
          obtain ⟨n, f, hn, hf, rfl⟩ := of_goOver hgo
          obtain rfl : n = c := Option.some.inj (hn.symm.trans hc)
          have hpassed : ∀ m ∈ n.children, g.Passes l m := fun m hm => ⟨n, f, hn, hf, hm⟩
          have hup : g.height ≤ g.layerOf l.node + 1 + d := by
            rw [Graph.layerOf_eq hn]
            omega
          obtain ⟨log, hrun, hinner⟩ := ih d (Nat.lt_succ_self d) hup (Nat.le_of_succ_le_succ hdepth)
            (fun m hm => (hpassed m hm).leads) (hg.linked.children_nodup hn) next net₁
          have hperform : perform g (.tell signal id (l :: rest)) net =
              .ok [.tell next id n.children, .tell signal id rest] net₁ := Action.bind_ok hgo
          cases hpass : n.children.forM (deliver g depth next id) net₁ with
          | error e net₂ =>
            rw [hpass] at hrun
            rw [Action.bind_error (hdeliver.trans hpass)]
            refine ⟨_, .next hone hperform (hrun.append_error (Nat.le_refl _)), ?_⟩
            have htidy := Tidy.cons hg hleads hnodup hpassed hinner .nil
            rwa [List.append_nil] at htidy
          | ok _ net₂ =>
            rw [hpass] at hrun
            obtain ⟨log', hrun', houter⟩ := hrest net₂
            rw [Action.bind_ok (hdeliver.trans hpass)]
            refine ⟨_, .next hone hperform (hrun.append hrun' (Nat.le_refl _)), ?_⟩
            show Tidy g _ (l :: trail (log ++ log'))
            rw [Chore.trail_append]
            exact .cons hg hleads hnodup hpassed hinner houter

end Network

/-! ## Flushes -/

/-- All links of a graph. -/
def Graph.links (g : Graph kind) : List Link := g.nodes.values.flatMap Node.children

theorem Graph.Leads.mem_links {g : Graph kind} {p : NodeId} {l : Link} (h : g.Leads p l) : l ∈ g.links := by
  obtain ⟨n, hn, hl⟩ := h
  exact List.mem_flatMap.2 ⟨n, mem_values hn, hl⟩

namespace Network

variable {g : Graph kind} {k : Nat} {ts us left log : List Chore} {net : Network kind} {p : NodeId} {n : Node kind}
  {m : Link} {links trail : List Link} {x y : NetworkAction kind Unit}

theorem Tidy.mem_links (hg : g.WellFormed) (hleads : ∀ l ∈ links, g.Leads p l)
    (h : Tidy g links trail) (hm : m ∈ trail) : m ∈ g.links := by
  obtain ⟨l, hl, hb⟩ := h.below m hm
  obtain ⟨⟨q, hq⟩, -⟩ := hg.below_leads ⟨p, hleads l hl⟩ hb
  exact hq.mem_links

theorem Tidy.length_le (hg : g.WellFormed) (hleads : ∀ l ∈ links, g.Leads p l)
    (h : Tidy g links trail) : trail.length ≤ g.links.length :=
  (h.nodup.subperm fun _ => h.mem_links hg hleads).length_le

theorem forward_eq (hn : g.nodes.get? p = some n) (signal : Signal) (id : TupleId) :
    forward g p signal id = n.children.forM (deliver g g.height signal id) := by
  unfold forward
  rw [Graph.node_eq_ok.2 hn]
  rfl

/-- What a node forwards comes to an end. No more calls are under way than there are layers from that of
the node on, and no link is gone over twice. -/
theorem runs_forward (hg : g.WellFormed) (hn : g.nodes.get? p = some n) (signal : Signal) (id : TupleId)
    (net : Network kind) : ∃ log, Runs g (g.height - g.layerOf p) [.tell signal id n.children] net log
      (forward g p signal id net) ∧ Tidy g n.children (Chore.trail log) := by
  have hheight := Graph.layer_lt_height hn
  rw [← Graph.layerOf_eq hn] at hheight
  obtain ⟨d, hd⟩ : ∃ d, g.height - g.layerOf p = d + 1 := Nat.exists_eq_succ_of_ne_zero (by omega)
  rw [hd, forward_eq hn]
  exact runs_tell hg (by omega) (by omega) (fun l hl => ⟨n, hn, hl⟩) (hg.linked.children_nodup hn)
    signal id net

/-- Whatever the network is, the chores come to an end as the work does. For every tuple that is dealt
with, and `k` times more, no link is gone over twice. -/
def Performs (g : Graph kind) (k : Nat) (ts : List Chore) (x : NetworkAction kind Unit) : Prop :=
  ∀ net, ∃ log, Runs g g.height ts net log (x net) ∧
    (Chore.trail log).length ≤ (processed log + k) * g.links.length

namespace Performs

theorem nil (g : Graph kind) : Performs g 0 [] (pure ()) := fun _ => ⟨[], .done, Nat.zero_le _⟩

theorem weaken (hx : Performs g 0 ts x) : Performs g k ts x := by
  intro net
  obtain ⟨log, hrun, hcount⟩ := hx net
  exact ⟨log, hrun, Nat.le_trans hcount (Nat.mul_le_mul_right _ (by omega))⟩

/-- Chores that leave no call under way can wait below others. -/
theorem append (hx : Performs g k ts x) (hy : Performs g 0 us y) (hus : calls us = 0) :
    Performs g k (ts ++ us) (do x; y) := by
  intro net
  have hheight : g.height + calls us ≤ g.height := by omega
  obtain ⟨log, hrun, hcount⟩ := hx net
  cases hend : x net with
  | error e net₁ =>
    rw [hend] at hrun
    rw [Action.bind_error hend]
    exact ⟨log, hrun.append_error hheight, hcount⟩
  | ok _ net₁ =>
    rw [hend] at hrun
    rw [Action.bind_ok hend]
    obtain ⟨log', hrun', hcount'⟩ := hy net₁
    refine ⟨_, hrun.append hrun' hheight, ?_⟩
    rw [Chore.trail_append, Chore.processed_append, List.length_append, Nat.add_right_comm, Nat.add_mul]
    exact Nat.add_le_add hcount hcount'

/-- A chore that is no call is carried out, and then what it leaves. -/
theorem of_perform {t : Chore} {j : Nat} (ht : t.isCall = false)
    (hk : k ≤ j + if t.isProcess then 1 else 0)
    (h : ∀ net, (∃ e net', perform g t net = .error e net' ∧ x net = .error e net') ∨
      ∃ left net' y, perform g t net = .ok left net' ∧ x net = y net' ∧ Performs g k left y) :
    Performs g j [t] x := by
  intro net
  have hcalls : calls [t] ≤ g.height := by simp [calls, ht]
  rcases h net with ⟨e, net', hperform, hx⟩ | ⟨left, net', y, hperform, hx, hleft⟩
  · rw [hx]
    refine ⟨_, .fails hcalls hperform, ?_⟩
    rw [Chore.trail_cons ht]
    exact Nat.zero_le _
  · obtain ⟨log, hrun, hcount⟩ := hleft net'
    rw [← List.append_nil left] at hrun
    rw [hx]
    refine ⟨_, .next hcalls hperform hrun, ?_⟩
    rw [Chore.trail_cons ht]
    refine Nat.le_trans hcount (Nat.mul_le_mul_right _ ?_)
    unfold processed
    rw [List.countP_cons]
    omega

end Performs

theorem performs_forward (hg : g.WellFormed) (hn : g.nodes.get? p = some n) (signal : Signal)
    (id : TupleId) : Performs g 1 [.tell signal id n.children] (forward g p signal id) := by
  intro net
  obtain ⟨log, hrun, htidy⟩ := runs_forward hg hn signal id net
  refine ⟨log, hrun.mono (Nat.sub_le _ _), ?_⟩
  refine Nat.le_trans (htidy.length_le hg fun l hl => ⟨n, hn, hl⟩) ?_
  exact Nat.le_mul_of_pos_left _ (Nat.succ_pos _)

theorem performs_release (g : Graph kind) (id : TupleId) :
    Performs g 0 [.release id] (onAgenda (Agenda.release id)) := by
  refine .of_perform rfl (Nat.le_refl 0) fun net => ?_
  cases hrelease : (onAgenda (Agenda.release id) : NetworkAction kind Unit) net with
  | error e net' => exact .inl ⟨e, net', Action.bind_error hrelease, rfl⟩
  | ok _ net' => exact .inr ⟨[], net', pure (), Action.bind_ok hrelease, rfl, .nil g⟩

/-- Dealing with a tuple comes to an end. -/
theorem performs_process (hg : g.WellFormed) (hn : g.nodes.get? p = some n) (id : TupleId) :
    Performs g 0 [.process p id] (process g p id) := by
  have hnode : g.node p = .ok n := Graph.node_eq_ok.2 hn
  have told := performs_forward hg hn
  refine .of_perform rfl (Nat.le_refl 1) fun net => ?_
  simp only [perform, process, Action.bind_ok (Action.get_eq net), hnode]
  have settled (signal : Signal) :
      (∃ e net', (do
          onAgenda (Agenda.setStage id .settled)
          pure [.tell signal id n.children] : NetworkAction kind (List Chore)) net = .error e net' ∧
        (do onAgenda (Agenda.setStage id .settled); forward g p signal id) net = .error e net') ∨
        ∃ left net' y, (do
          onAgenda (Agenda.setStage id .settled)
          pure [.tell signal id n.children] : NetworkAction kind (List Chore)) net = .ok left net' ∧
        (do onAgenda (Agenda.setStage id .settled); forward g p signal id) net = y net' ∧
          Performs g 1 left y := by
    cases hset : (onAgenda (Agenda.setStage id .settled) : NetworkAction kind Unit) net with
    | error e net' => exact .inl ⟨e, net', Action.bind_error hset, Action.bind_error hset⟩
    | ok _ net' =>
      exact .inr ⟨_, net', _, Action.bind_ok hset, Action.bind_ok hset, told signal id⟩
  cases hstage : net.agenda.stage id with
  | error e => exact .inl ⟨e, net, rfl, rfl⟩
  | ok stage =>
    cases stage with
    | creating => exact settled .insert
    | updating => exact settled .update
    | dying =>
      exact .inr ⟨_, net, _, rfl, rfl, (told .retract id).append (performs_release g id) rfl⟩
    | aborting => exact .inr ⟨_, net, _, rfl, rfl, (performs_release g id).weaken⟩
    | settled => exact .inr ⟨[], net, _, rfl, rfl, (Performs.nil g).weaken⟩
    | dead => exact .inr ⟨[], net, _, rfl, rfl, (Performs.nil g).weaken⟩

/-- Work whose answer is of no interest. -/
theorem discard_eq {α : Type} (x : NetworkAction kind α) :
    (discard x : NetworkAction kind Unit) = (do let _ ← x; pure ()) :=
  map_eq_pure_bind (fun _ => ()) x

/-- So does dealing with all tuples of a queue. -/
theorem performs_queue (hg : g.WellFormed) (hn : g.nodes.get? p = some n) (queue : List TupleId) :
    Performs g 0 (queue.map (.process p)) (queue.forM (process g p)) := by
  induction queue with
  | nil => exact .nil g
  | cons id rest ih =>
    exact (performs_process hg hn id).append ih (Chore.calls_map (fun _ => rfl) rest)

/-- So does the turn of a node. -/
theorem performs_drain (hg : g.WellFormed) (hn : g.nodes.get? p = some n) :
    Performs g 0 [.drain p] (discard (drain g p)) := by
  have hdrain : (discard (drain g p) : NetworkAction kind Unit) = (do
      let queue ← take g p
      queue.forM (process g p)) := by
    rw [drain_eq]
    simp only [discard_eq, bind_assoc, pure_bind, bind_pure_unit]
  rw [hdrain]
  refine .of_perform rfl (Nat.le_refl 0) fun net => ?_
  cases htake : take g p net with
  | error e net' => exact .inl ⟨e, net', Action.bind_error htake, Action.bind_error htake⟩
  | ok queue net' =>
    exact .inr ⟨_, net', _, Action.bind_ok htake, Action.bind_ok htake, performs_queue hg hn queue⟩

theorem performs_drainAll (hg : g.WellFormed) {nodes : List NodeId}
    (hnodes : ∀ p ∈ nodes, ∃ n, g.nodes.get? p = some n) :
    Performs g 0 (nodes.map .drain) (discard (drainAll g nodes)) := by
  induction nodes with
  | nil => exact .nil g
  | cons p rest ih =>
    obtain ⟨n, hn⟩ := hnodes p List.mem_cons_self
    have hdrain : (discard (drainAll g (p :: rest)) : NetworkAction kind Unit) = (do
        discard (drain g p)
        discard (drainAll g rest)) := by
      simp only [drainAll, discard_eq, bind_assoc, pure_bind]
    rw [hdrain]
    exact (performs_drain hg hn).append (ih fun q hq => hnodes q (List.mem_cons_of_mem p hq))
      (Chore.calls_map (fun _ => rfl) rest)

/-- A flush comes to an end as `Network.flush` does. No more calls are under way than there are layers,
and for every tuple that is dealt with, no link is gone over twice. -/
theorem runs_flush (hg : g.WellFormed) (net : Network kind) :
    ∃ log, Runs g g.height (g.layers.flatten.map .drain) { net with operations := 0 } log
      ((discard (flush g) : NetworkAction kind Unit) net) ∧
        (Chore.trail log).length ≤ processed log * g.links.length :=
  performs_drainAll hg (fun _ hp => (Graph.mem_layers.1 hp).imp fun _ h => h.1) { net with operations := 0 }

end Network

/-! ## Layers -/

namespace Graph

variable {g : Graph kind}

/-- Some node is in the highest layer, if there is any node. -/
theorem exists_highest (nodes : List (Node kind)) :
    heightOf nodes = 0 ∨ ∃ n ∈ nodes, n.layer + 1 = heightOf nodes := by
  have hfold : ∀ (nodes : List (Node kind)) (b : Nat),
      nodes.foldl (fun h n => max h (n.layer + 1)) b = b ∨
        ∃ n ∈ nodes, n.layer + 1 = nodes.foldl (fun h n => max h (n.layer + 1)) b := by
    intro nodes
    induction nodes with
    | nil => exact fun b => .inl rfl
    | cons m rest ih =>
      intro b
      rcases ih (max b (m.layer + 1)) with he | ⟨n, hn, he⟩
      · rcases Nat.le_total b (m.layer + 1) with hle | hle
        · exact .inr ⟨m, List.mem_cons_self, by rw [List.foldl_cons, he]; omega⟩
        · exact .inl (by rw [List.foldl_cons, he]; omega)
      · exact .inr ⟨n, List.mem_cons_of_mem m hn, he⟩
  exact hfold nodes 0

theorem exists_of_above {parents : List NodeId} {i : Nat} (h : g.above parents = i + 1) :
    ∃ p ∈ parents, g.layerOf p = i := by
  induction parents with
  | nil => cases h
  | cons p rest ih =>
    have hcons : g.above (p :: rest) = max (g.layerOf p + 1) (g.above rest) := rfl
    by_cases hp : g.layerOf p = i
    · exact ⟨p, List.mem_cons_self, hp⟩
    · obtain ⟨q, hq, hi⟩ := ih (by omega)
      exact ⟨q, List.mem_cons_of_mem p hq, hi⟩

/-- The layers of a graph are those below its height; none of them is empty. -/
theorem Built.layer_iff (h : g.Built) (i : Nat) :
    i < g.height ↔ ∃ p n, g.nodes.get? p = some n ∧ n.layer = i := by
  have hg := h.wellFormed
  obtain ⟨ds, hds⟩ := h
  obtain rfl := Blueprint.eq_prune_of_build hds
  have harranged := Blueprint.Arranged.blank.declare ds
  constructor
  · intro hi
    -- Down from the highest layer, there is a parent in each.
    have hdown : ∀ k p n, (Blueprint.declare ds {}).prune.nodes.get? p = some n → n.layer = i + k →
        ∃ p n, (Blueprint.declare ds {}).prune.nodes.get? p = some n ∧ n.layer = i := by
      intro k
      induction k with
      | zero => exact fun p n hn hk => ⟨p, n, hn, hk⟩
      | succ k ih =>
        intro p n hn hk
        obtain ⟨q, hq, hlayer⟩ := exists_of_above ((harranged.layer_prune hn).symm.trans hk)
        obtain ⟨m, hm, -⟩ := hg.linked.below hn hq
        exact ih q m hm ((layerOf_eq hm).symm.trans hlayer)
    rcases exists_highest (Blueprint.declare ds {}).prune.nodes.values with he | ⟨n, hn, he⟩
    · exact absurd hi (by unfold height; omega)
    · obtain ⟨p, hp⟩ := Table.mem_values.1 hn
      exact hdown (n.layer - i) p n hp (by unfold height at hi; omega)
  · rintro ⟨p, n, hn, rfl⟩
    exact layer_lt_height hn

/-- Propagation on a graph that is made of declarations comes to an end, as does the search for the nodes
of the graph among those declared. -/
structure Terminates (ds : List (Declaration kind)) (g : Graph kind) : Prop where
  /-- Links lead to higher layers. -/
  rises : ∀ {p l}, g.Leads p l → ∃ n, g.nodes.get? l.node = some n ∧ g.layerOf p < n.layer
  /-- There are as many layers as the graph is high. -/
  layers : ∀ i, i < g.height ↔ ∃ p n, g.nodes.get? p = some n ∧ n.layer = i
  /-- What a node forwards comes to an end in every network, in one way, and goes over no link twice. No
  more calls are under way than there are layers from that of the node on. -/
  forwards : ∀ {p n}, g.nodes.get? p = some n → ∀ signal id net,
    ∃ log, Network.Runs g (g.height - g.layerOf p) [.tell signal id n.children] net log
        (Network.forward g p signal id net) ∧
      (trail log).Nodup ∧ (∀ l ∈ trail log, l ∈ g.links) ∧
      ∀ {d log' r}, Network.Runs g d [.tell signal id n.children] net log' r →
        log' = log ∧ r = Network.forward g p signal id net
  /-- A flush comes to an end in every network, under any limits and in one way. No more calls are under
  way than there are layers, and there are no more deliveries than one over each link for every tuple that
  is dealt with. -/
  flushes : ∀ net : Network kind, ∃ log, Network.Runs g g.height (g.layers.flatten.map .drain)
        { net with operations := 0 } log
        ((discard (Network.flush g) : NetworkAction kind Unit) net) ∧
      (trail log).length ≤ processed log * g.links.length ∧
      ∀ {d log' r}, Network.Runs g d (g.layers.flatten.map .drain) { net with operations := 0 } log' r →
        log' = log ∧ r = (discard (Network.flush g) : NetworkAction kind Unit) net
  /-- A search that begins with the constraints comes to an end. It looks up the parents of every ancestor
  once, and of nothing else, and what it finds are the nodes of the graph. -/
  searched : ∃ visits found, Blueprint.Search (Blueprint.declare ds {}).catalog.nodes []
        (Blueprint.declare ds {}).constraints.reverse visits found ∧
      visits.Nodup ∧ (∀ p, p ∈ visits ↔ ∃ leaf ∈ (Blueprint.declare ds {}).constraints,
        Blueprint.Ancestor (Blueprint.declare ds {}).catalog.nodes leaf p) ∧
      ∀ p, p ∈ found ↔ ∃ n, g.nodes.get? p = some n

/-- Propagation comes to an end on every graph that can be built. -/
theorem terminates_of_build {ds : List (Declaration kind)}
    (h : (Blueprint.build (Blueprint.declare ds {})).1 = .ok g) : g.Terminates ds := by
  have hbuilt : g.Built := ⟨ds, h⟩
  have hg := hbuilt.wellFormed
  have hsound := Blueprint.Sound.blank.declare ds
  refine ⟨fun hl => ?_, hbuilt.layer_iff, fun hn signal id net => ?_, fun net => ?_, ?_⟩
  · obtain ⟨n, hn, -, hlt⟩ := hg.target hl
    exact ⟨n, hn, hlt⟩
  · obtain ⟨log, hrun, htidy⟩ := Network.runs_forward hg hn signal id net
    refine ⟨log, hrun, htidy.nodup, fun m hm => ?_, fun h => h.unique hrun⟩
    exact htidy.mem_links hg (fun l hl => ⟨_, hn, hl⟩) hm
  · obtain ⟨log, hrun, hcount⟩ := Network.runs_flush hg net
    exact ⟨log, hrun, hcount, fun h => h.unique hrun⟩
  · obtain rfl := Blueprint.eq_prune_of_build h
    obtain ⟨visits, found, hsearch⟩ := Blueprint.exists_search
      (Blueprint.declare ds {}).catalog.nodes [] (Blueprint.declare ds {}).constraints.reverse
    refine ⟨visits, found, hsearch, hsearch.visits_fresh.1, fun p => ?_, fun p =>
      (hsound.get?_prune_iff_search hsearch).symm⟩
    rw [hsearch.mem_visits]
    simp only [List.mem_reverse]

/-- Two filters in a row between a source and a constraint. -/
theorem terminates_chargingEvens : ∃ g : Graph .simple,
    (Blueprint.build (Blueprint.declare Watched.chargingEvens {})).1 = .ok g ∧
      g.Terminates Watched.chargingEvens ∧ g.height = 4 ∧ g.links.length = 3 :=
  ⟨_, rfl, terminates_of_build rfl, by decide, by decide⟩

end Graph

end ConstraintStreams
