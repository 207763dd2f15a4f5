import ConstraintStreams.Proofs.Graph.Visibility
import ConstraintStreams.Proofs.Session.Keeping
import ConstraintStreams.Proofs.Session.Reach

/-!
# Changes are all or nothing

A batch of changes is checked as a whole before any of it is carried out. `change_all_or_nothing` says
what these checks are good for: a call that fails has changed nothing, or poisons the session, and one
that succeeds has done what the single changes do one after the other. Once the checks have passed, only
what poisons can go wrong; for that, visibility has to be a matter of the type of a fact.
-/

namespace ConstraintStreams

/-- The error poisons the session that it comes up in. -/
abbrev Error.Poisonous (e : Error) : Prop := e.poisons = true

theorem Limits.check_poisonous {limits : Limits} {limit : Limit} {n : Nat} {e : Error}
    (h : limits.check limit n = .error e) : e.Poisonous := by
  unfold check at h
  split at h
  · cases h
    rfl
  · cases h

theorem Limits.check_mono {limits : Limits} {limit : Limit} {m n : Nat} (hmn : m ≤ n)
    (h : limits.check limit n = .ok ()) : limits.check limit m = .ok () := by
  unfold check at h ⊢
  split at h
  · cases h
  · rw [if_neg (by omega)]

/-! ## Changes of tuples -/

namespace Agenda

open ConstraintStreams.Action (Maintains)

theorem tuple_poisonous {g : Agenda} {id : TupleId} {e : Error} (h : g.tuple id = .error e) :
    e.Poisonous := by
  unfold tuple TupleStore.get at h
  split at h
  · cases h
  · cases h
    rfl

theorem enqueue_poisonous (node : NodeId) (id : TupleId) :
    Maintains Error.Poisonous (fun _ => True) (enqueue node id) := by
  intro g _
  unfold enqueue
  rw [Action.ensures_bind, Action.ensures_get]
  split
  · rfl
  · trivial

theorem setTuple_poisonous (id : TupleId) (t : Tuple) :
    Maintains Error.Poisonous (fun _ => True) (setTuple id t) := fun _ _ => trivial

theorem create_poisonous (node : NodeId) (facts : Facts) (sources : Sources) :
    Maintains Error.Poisonous (fun _ => True) (create node facts sources) := by
  refine .get_bind fun g _ => .bind (.lift fun e he => ?_) fun _ => .bind (fun _ _ => trivial)
    fun _ => .bind (fun s _ => ?_) fun _ => .pure _
  · unfold TupleStore.acquire at he
    rcases except_bind_eq_error.1 he with hlimit | ⟨_, -, hpure⟩
    · exact Limits.check_poisonous hlimit
    · cases hpure
  · exact (enqueue_poisonous node _ s trivial).handle fun e s' he => he

theorem update_poisonous (id : TupleId) :
    Maintains Error.Poisonous (fun _ => True) (update id) := by
  refine .get_bind fun g _ => .bind (.lift fun e => tuple_poisonous) fun t => ?_
  split
  · exact .bind (setTuple_poisonous id _) fun _ => enqueue_poisonous _ id
  · exact .pure _
  · exact .pure _
  · exact fun _ _ => rfl

theorem retract_poisonous (id : TupleId) :
    Maintains Error.Poisonous (fun _ => True) (retract id) := by
  refine .get_bind fun g _ => .bind (.lift fun e => tuple_poisonous) fun t => ?_
  split
  · exact setTuple_poisonous id _
  · exact .bind (setTuple_poisonous id _) fun _ => enqueue_poisonous _ id
  · exact setTuple_poisonous id _
  · exact fun _ _ => rfl

theorem setFacts_poisonous (id : TupleId) (facts : Facts) :
    Maintains Error.Poisonous (fun _ => True) (setFacts id facts) :=
  .get_bind fun _ _ => .bind (.lift fun _ => tuple_poisonous) fun _ => setTuple_poisonous id _

end Agenda

/-- Where sources test by type, whatever keeps them from deciding about a fact poisons. -/
theorem Graph.Gated.isVisible_poisonous {kind : ScoreKind} {g : Graph kind} (hg : g.Gated)
    {p : NodeId} {fact : Fact} {e : Error} (h : Session.isVisible g p fact = .error e) :
    e.Poisonous := by
  unfold Session.isVisible at h
  rcases except_bind_eq_error.1 h with hnode | ⟨n, hnode, h⟩
  · unfold Graph.node at hnode
    split at hnode
    · cases hnode
    · cases hnode
      rfl
  · have hn : g.nodes.get? p = some n := by
      unfold Graph.node at hnode
      split at hnode
      · next m hm =>
        cases hnode
        exact hm
      · cases hnode
    split at h
    · next type predicate hop =>
      obtain ⟨accepts, rfl⟩ := hg hn hop
      exact FactType.poisons_of_gate h
    · cases h

namespace Session

variable {kind : ScoreKind} {g : Graph kind} {s s' : Session kind} {E : Error → Prop}

open ConstraintStreams.Action (Maintains)

/-! ## What can go wrong with one fact -/

/-- Work on the agenda leaves alone what a session has beside its network. -/
theorem maintains_onAgenda {α : Type} {I : Session kind → Prop} {x : Action Agenda α}
    (hI : ∀ s network, I s → I { s with network }) (hE : ∀ e : Error, e.Poisonous → E e)
    (hx : Maintains Error.Poisonous (fun _ => True) x) :
    Maintains E I (onNetwork (Network.onAgenda x)) := by
  intro s hs
  refine Action.ensures_within.2 (Action.ensures_within.2 ?_)
  have h := hx s.network.agenda trivial
  unfold Action.Ensures at h ⊢
  split at h
  · exact hI s _ hs
  · next e _ he => exact hE e h

/-- The facts of some keys are in the session, which is on a graph. -/
def Keyed (g : Graph kind) (keys : List Fact.Key) (s : Session kind) : Prop :=
  s.graph = g ∧ ∀ k ∈ keys, s.facts.contains k = true

theorem Keyed.put {keys : List Fact.Key} (h : Keyed g keys s) (k : Fact.Key) (entry : SourceFact) :
    Keyed g keys { s with facts := s.facts.insert k entry } := by
  refine ⟨h.1, fun k' hk' => ?_⟩
  have hold := h.2 k' hk'
  unfold Table.contains at hold ⊢
  rw [Table.get?_insert]
  split
  · rfl
  · exact hold

/-- The errors are those that poison, among them all that keep a source from deciding. -/
structure Covers (E : Error → Prop) (g : Graph kind) : Prop where
  poisonous : ∀ e : Error, e.Poisonous → E e
  visibility : ∀ {p fact e}, isVisible g p fact = .error e → E e

/-- A source is brought to show a new fact, and nothing but the network changes. -/
theorem attachAt_maintains (hE : Covers E g) {I : Session kind → Prop}
    (hI : ∀ s network, I s → I { s with network }) (hgraph : ∀ s, I s → s.graph = g) (fact : Fact)
    (node : NodeId) : Maintains E I (attachAt fact node) := by
  refine .get_bind fun s hs => .bind (.lift fun e he => hE.visibility (hgraph s hs ▸ he)) fun _ => ?_
  split
  · exact .bind (maintains_onAgenda hI hE.poisonous (Agenda.create_poisonous node _ _)) fun _ => .pure _
  · exact .pure _

/-- A fact that is taken in is listed under its key, and no other entry changes. -/
theorem attach_enters (hE : Covers E s.graph) (fact : Fact) :
    Action.Ensures E (attach fact) s fun _ s' =>
      ∃ tuples, s'.facts = s.facts.insert fact.key ⟨fact, tuples⟩ := by
  unfold attach
  rw [Action.ensures_bind, Action.ensures_get, Action.ensures_bind]
  refine (Maintains.mapM (I := fun t => t.graph = s.graph ∧ t.facts = s.facts)
    (attachAt_maintains hE (fun _ _ h => h) (fun _ h => h.1) fact) _ s ⟨rfl, rfl⟩).mono ?_
  rintro tuples s' ⟨-, hfacts⟩
  rw [← hfacts]
  exact ⟨tuples, rfl⟩

theorem refreshAt_maintains (hE : Covers E g) (fact : Fact) (node : NodeId) (tuple : Option TupleId)
    (keys : List Fact.Key) : Maintains E (Keyed g keys) (refreshAt fact node tuple) := by
  refine .get_bind fun s hs => .bind (.lift fun e he => hE.visibility (hs.1 ▸ he)) fun visible => ?_
  have onAgenda : ∀ {α : Type} {x : Action Agenda α},
      Maintains Error.Poisonous (fun _ => True) x →
      Maintains E (Keyed g keys) (onNetwork (Network.onAgenda x)) := fun hx =>
    maintains_onAgenda (fun _ _ h => h) hE.poisonous hx
  split
  · next id =>
    exact .bind (onAgenda (.bind (Agenda.setFacts_poisonous id _) fun _ => Agenda.update_poisonous id))
      fun _ => .pure _
  · next id => exact .bind (onAgenda (Agenda.retract_poisonous id)) fun _ => .pure _
  · exact .bind (onAgenda (Agenda.create_poisonous node _ _)) fun _ => .pure _
  · exact .pure _

theorem refreshTuples_maintains (hE : Covers E g) (fact old : Fact)
    (done tuples : List (NodeId × Option TupleId)) (keys : List Fact.Key) :
    Maintains E (Keyed g keys) (refreshTuples fact old done tuples) := by
  induction tuples generalizing done with
  | nil => exact .pure _
  | cons entry rest ih =>
    exact .bind (refreshAt_maintains hE fact _ _ keys) fun _ =>
      .bind (.modify fun s hs => hs.put _ _) fun _ => ih _

/-- A fact that is in the session can be brought up to date, unless something poisons the session. -/
theorem refresh_maintains (hE : Covers E g) {fact : Fact} {keys : List Fact.Key}
    (hfact : fact.key ∈ keys) : Maintains E (Keyed g keys) (refresh fact) := by
  refine .get_bind fun s hs => ?_
  have hthere := hs.2 fact.key hfact
  unfold Table.contains at hthere
  split
  · next hnone =>
    rw [hnone] at hthere
    cases hthere
  · next entry _ =>
    refine .bind (refreshTuples_maintains hE fact entry.fact [] entry.tuples keys) fun _ =>
      .modify fun s hs => ⟨hs.1, fun k hk => ?_⟩
    have hold := hs.2 k hk
    unfold Table.contains at hold ⊢
    rw [Table.get?_modify]
    split
    · next he =>
      rw [Option.isSome_map, he]
      exact hold
    · exact hold

/-- Giving a fact up can go wrong only by what poisons. -/
theorem detach_erases (hE : ∀ e : Error, e.Poisonous → E e) {k : Fact.Key}
    (facts : Table Fact.Key SourceFact) (s : Session kind) (hs : s.facts = facts) :
    Action.Ensures E (detach k) s fun _ s' => s'.facts = facts.erase k := by
  unfold detach
  rw [Action.ensures_bind, Action.ensures_get]
  split
  · next hnone =>
    rw [hs] at hnone
    rw [Table.erase_of_none hnone]
    exact hs
  · rw [Action.ensures_bind, Action.ensures_set]
    exact Maintains.forM (I := fun s : Session kind => s.facts = facts.erase k)
      (fun id _ => maintains_onAgenda (fun _ _ h => h) hE (Agenda.retract_poisonous id)) _
      (by rw [← hs])

/-! ## A call that fails -/

/-- Nothing has changed, or the session is poisoned. -/
def Intact (s s' : Session kind) : Prop := s' = s ∨ s'.poisoned = true

theorem checkUsable_ends : Action.Ends checkUsable s (fun _ s' => s' = s) (· = s) := by
  unfold checkUsable
  rw [Action.ends_bind, Action.ends_get]
  split <;> rfl

/-- Work that fails in no other way than by what poisons. -/
theorem guarded_intact {x : SessionAction kind Unit} {Q : Unit → Session kind → Prop}
    (h : Action.Ensures Error.Poisonous x s Q) :
    Action.Ends (guarded x) s (fun _ _ => True) (Intact s) := by
  unfold Action.Ends
  cases hx : x s with
  | ok a s' =>
    rw [guarded_ok hx]
    trivial
  | error e s' =>
    rw [guarded_error hx, if_pos (h.of_error hx)]
    exact .inr rfl

theorem checkKnown_ok {facts : Table Fact.Key SourceFact} {batch : List Fact}
    (h : checkKnown facts batch = .ok ()) : ∀ k ∈ batch.map Fact.key, facts.contains k = true := by
  induction batch with
  | nil => simp
  | cons fact rest ih =>
    unfold checkKnown at h
    split at h
    · next hfact =>
      rw [List.map_cons, List.forall_mem_cons]
      exact ⟨hfact, ih h⟩
    · cases h

theorem takeIn_intact (hg : g.Gated) (hgraph : s.graph = g) (facts : List Fact) :
    Action.Ends (takeIn facts) s (fun _ _ => True) (Intact s) := by
  have hE : Covers Error.Poisonous g := ⟨fun _ he => he, hg.isVisible_poisonous⟩
  unfold takeIn
  rw [Action.ends_bind]
  refine checkUsable_ends.mono (fun _ s' hs' => ?_) fun _ => .inl
  subst hs'
  rw [Action.ends_bind, Action.ends_get, Action.ends_bind, Action.ends_lift]
  refine ⟨fun _ _ => ?_, fun _ _ => .inl rfl⟩
  rw [Action.ends_bind, Action.ends_lift]
  refine ⟨fun _ _ => ?_, fun _ _ => .inl rfl⟩
  refine guarded_intact (Maintains.forM (I := fun s => s.graph = g) (fun fact _ => ?_) s' hgraph)
  exact .get_bind fun s hs => .bind (.mapM (attachAt_maintains hE (fun _ _ h => h) (fun _ h => h) fact) _)
    fun _ => .modify fun _ h => h

theorem takeOver_intact (hg : g.Gated) (hgraph : s.graph = g) (facts : List Fact) :
    Action.Ends (takeOver facts) s (fun _ _ => True) (Intact s) := by
  have hE : Covers Error.Poisonous g := ⟨fun _ he => he, hg.isVisible_poisonous⟩
  unfold takeOver
  rw [Action.ends_bind]
  refine checkUsable_ends.mono (fun _ s' hs' => ?_) fun _ => .inl
  subst hs'
  rw [Action.ends_bind, Action.ends_get, Action.ends_bind, Action.ends_lift]
  refine ⟨fun _ hknown => ?_, fun _ _ => .inl rfl⟩
  exact guarded_intact (Maintains.forM (I := Keyed g (facts.map Fact.key))
    (fun fact hfact => refresh_maintains hE (List.mem_map_of_mem hfact)) s'
    ⟨hgraph, checkKnown_ok hknown⟩)

theorem giveUp_intact (keys : List Fact.Key) :
    Action.Ends (giveUp keys) s (fun _ _ => True) (Intact s) := by
  unfold giveUp
  rw [Action.ends_bind]
  refine checkUsable_ends.mono (fun _ s' hs' => ?_) fun _ => .inl
  subst hs'
  rw [Action.ends_bind, Action.ends_get, Action.ends_bind, Action.ends_lift]
  refine ⟨fun _ _ => ?_, fun _ _ => .inl rfl⟩
  exact guarded_intact (Maintains.forM (I := fun _ => True) (fun k _ s _ =>
    (detach_erases (fun _ he => he) s.facts s rfl).mono fun _ _ _ => trivial) s' trivial)

/-! ## A batch, fact by fact -/

/-- In a batch, changes wait to be propagated. -/
theorem change_of_batched {x : SessionAction kind Unit} (hx : KeepsStanding x)
    (h : s.config.propagation = .batched) : (do x; afterChange : SessionAction kind Unit) s = x s := by
  cases hrun : x s with
  | error e s' => exact Action.bind_error hrun
  | ok a s' =>
    rw [Action.bind_ok hrun]
    have hconfig := ((hx s).of_ok hrun).2
    simp [afterChange, hconfig, h, bind, EStateM.bind]
    rfl

theorem checkUsable_eq_ok {a : Unit} :
    checkUsable s = .ok a s' ↔ s.poisoned = false ∧ s' = s := by
  cases hp : s.poisoned with
  | true => simp [checkUsable_of_poisoned hp]
  | false => simp [checkUsable_of_usable hp, eq_comm]

theorem takeIn_eq_ok {facts : List Fact} : takeIn facts s = .ok () s' ↔
    s.poisoned = false ∧ checkNew s.facts facts [] = .ok () ∧
      s.config.limits.check .facts (s.facts.size + facts.length) = .ok () ∧
      facts.forM attach s = .ok () s' := by
  simp only [takeIn, Action.bind_eq_ok, Action.lift_eq_ok, checkUsable_eq_ok, guarded_eq_ok,
    Action.get_eq, EStateM.Result.ok.injEq]
  constructor
  · rintro ⟨-, t, ⟨hp, rfl⟩, _, _, ⟨rfl, rfl⟩, _, _, ⟨hnew, rfl⟩, _, _, ⟨hlimit, rfl⟩, hrun⟩
    exact ⟨hp, hnew, hlimit, hrun⟩
  · rintro ⟨hp, hnew, hlimit, hrun⟩
    exact ⟨(), s, ⟨hp, rfl⟩, s, s, ⟨rfl, rfl⟩, (), s, ⟨hnew, rfl⟩, (), s, ⟨hlimit, rfl⟩, hrun⟩

theorem takeOver_eq_ok {facts : List Fact} : takeOver facts s = .ok () s' ↔
    s.poisoned = false ∧ checkKnown s.facts facts = .ok () ∧ facts.forM refresh s = .ok () s' := by
  simp only [takeOver, Action.bind_eq_ok, Action.lift_eq_ok, checkUsable_eq_ok, guarded_eq_ok,
    Action.get_eq, EStateM.Result.ok.injEq]
  constructor
  · rintro ⟨-, t, ⟨hp, rfl⟩, _, _, ⟨rfl, rfl⟩, _, _, ⟨hknown, rfl⟩, hrun⟩
    exact ⟨hp, hknown, hrun⟩
  · rintro ⟨hp, hknown, hrun⟩
    exact ⟨(), s, ⟨hp, rfl⟩, s, s, ⟨rfl, rfl⟩, (), s, ⟨hknown, rfl⟩, hrun⟩

theorem giveUp_eq_ok {keys : List Fact.Key} : giveUp keys s = .ok () s' ↔
    s.poisoned = false ∧ checkHeld s.facts keys [] = .ok () ∧ keys.forM detach s = .ok () s' := by
  simp only [giveUp, Action.bind_eq_ok, Action.lift_eq_ok, checkUsable_eq_ok, guarded_eq_ok,
    Action.get_eq, EStateM.Result.ok.injEq]
  constructor
  · rintro ⟨-, t, ⟨hp, rfl⟩, _, _, ⟨rfl, rfl⟩, _, _, ⟨hheld, rfl⟩, hrun⟩
    exact ⟨hp, hheld, hrun⟩
  · rintro ⟨hp, hheld, hrun⟩
    exact ⟨(), s, ⟨hp, rfl⟩, s, s, ⟨rfl, rfl⟩, (), s, ⟨hheld, rfl⟩, hrun⟩

/-- What passes the check of new facts still does so where no more of their keys are taken. -/
theorem checkNew_mono {facts facts' : Table Fact.Key SourceFact} {batch : List Fact}
    {seen seen' : List Fact.Key} (h : checkNew facts batch seen = .ok ())
    (hle : ∀ k, facts'.contains k = true ∨ k ∈ seen' → facts.contains k = true ∨ k ∈ seen) :
    checkNew facts' batch seen' = .ok () := by
  induction batch generalizing seen seen' with
  | nil => rfl
  | cons fact rest ih =>
    unfold checkNew at h ⊢
    split at h
    · cases h
    · next hnew =>
      rw [if_neg fun h' => hnew (hle _ h')]
      refine ih h fun k hk => ?_
      simp only [List.mem_cons] at hk ⊢
      rcases hk with hk | hk | hk
      · exact (hle k (.inl hk)).imp_right .inr
      · exact .inr (.inl hk)
      · exact (hle k (.inr hk)).imp_right .inr

/-- What passes the check of known facts still does so where more facts are known. -/
theorem checkKnown_mono {facts facts' : Table Fact.Key SourceFact} {batch : List Fact}
    (h : checkKnown facts batch = .ok ())
    (hle : ∀ k ∈ batch.map Fact.key, facts.contains k = true → facts'.contains k = true) :
    checkKnown facts' batch = .ok () := by
  induction batch with
  | nil => rfl
  | cons fact rest ih =>
    unfold checkKnown at h ⊢
    rw [List.map_cons, List.forall_mem_cons] at hle
    split at h
    · next hfact =>
      rw [if_pos (hle.1 hfact)]
      exact ih h hle.2
    · cases h

/-- What passes the check of keys to be given up still does so where no more of them are gone. -/
theorem checkHeld_mono {facts facts' : Table Fact.Key SourceFact} {keys seen seen' : List Fact.Key}
    (h : checkHeld facts keys seen = .ok ())
    (hle : ∀ k, facts.contains k = true ∧ k ∉ seen → facts'.contains k = true ∧ k ∉ seen') :
    checkHeld facts' keys seen' = .ok () := by
  induction keys generalizing seen seen' with
  | nil => rfl
  | cons key rest ih =>
    unfold checkHeld at h ⊢
    split at h
    · next hkey =>
      rw [if_pos (hle key hkey)]
      refine ih h fun k hk => ?_
      simp only [List.mem_cons, not_or] at hk ⊢
      obtain ⟨hthere, hne, hseen⟩ := hk
      obtain ⟨hthere', hseen'⟩ := hle k ⟨hthere, hseen⟩
      exact ⟨hthere', hne, hseen'⟩
    · cases h

theorem forM_cons_eq_ok {α : Type} {f : α → SessionAction kind PUnit} {a : α} {rest : List α} :
    (a :: rest).forM f s = .ok ⟨⟩ s' ↔
      ∃ t, f a s = .ok ⟨⟩ t ∧ rest.forM f t = .ok ⟨⟩ s' := by
  have hcons : (a :: rest).forM f = (f a >>= fun _ => rest.forM f) := rfl
  rw [hcons, Action.bind_eq_ok]
  exact ⟨fun ⟨_, t, h⟩ => ⟨t, h⟩, fun ⟨t, h⟩ => ⟨⟨⟩, t, h⟩⟩

theorem forM_single_eq_ok {α : Type} {f : α → SessionAction kind PUnit} {a : α}
    (h : f a s = .ok ⟨⟩ s') : [a].forM f s = .ok ⟨⟩ s' :=
  forM_cons_eq_ok.2 ⟨s', h, rfl⟩

/-- Anything may go wrong. -/
theorem Covers.any (g : Graph kind) : Covers (fun _ => True) g := ⟨fun _ _ => trivial, fun _ => trivial⟩

/-- A batch of new facts is the first of them, and then the others. -/
theorem takeIn_cons {fact : Fact} {rest : List Fact} (h : takeIn (fact :: rest) s = .ok () s') :
    ∃ t, takeIn [fact] s = .ok () t ∧ takeIn rest t = .ok () s' := by
  obtain ⟨hp, hnew, hlimit, hrun⟩ := takeIn_eq_ok.1 h
  obtain ⟨t, hattach, hrest⟩ := forM_cons_eq_ok.1 hrun
  obtain ⟨tuples, hfacts⟩ := (attach_enters (.any s.graph) fact).of_ok hattach
  obtain ⟨hstanding, hconfig⟩ := (keepsStanding_attach fact s).of_ok hattach
  have hfree := ((checkNew_ok hnew).1 fact List.mem_cons_self).1
  have hsize : t.facts.size = s.facts.size + 1 := by
    rw [hfacts]
    unfold Table.size
    rw [Table.entries_insert_of_none hfree, List.length_append]
    rfl
  have hnewRest : checkNew s.facts rest [fact.key] = .ok () := by
    unfold checkNew at hnew
    split at hnew
    · cases hnew
    · exact hnew
  refine ⟨t, takeIn_eq_ok.2 ⟨hp, ?_, ?_, forM_single_eq_ok hattach⟩,
    takeIn_eq_ok.2 ⟨hstanding.trans hp, ?_, ?_, hrest⟩⟩
  · unfold checkNew
    rw [if_neg (by simp [Table.contains, hfree])]
    rfl
  · exact Limits.check_mono (by simp) hlimit
  · refine checkNew_mono hnewRest fun k hk => ?_
    rw [List.mem_singleton]
    rcases hk with hk | hk
    · unfold Table.contains at hk ⊢
      rw [hfacts, Table.get?_insert] at hk
      split at hk
      · next he => exact .inr he.symm
      · exact .inl hk
    · cases hk
  · rw [hconfig, hsize]
    refine Limits.check_mono ?_ hlimit
    simp only [List.length_cons]
    omega

/-- A batch of new versions is the first of them, and then the others. -/
theorem takeOver_cons {fact : Fact} {rest : List Fact} (h : takeOver (fact :: rest) s = .ok () s') :
    ∃ t, takeOver [fact] s = .ok () t ∧ takeOver rest t = .ok () s' := by
  obtain ⟨hp, hknown, hrun⟩ := takeOver_eq_ok.1 h
  obtain ⟨t, hrefresh, hrest⟩ := forM_cons_eq_ok.1 hrun
  obtain ⟨hstanding, -⟩ := (keepsStanding_refresh fact s).of_ok hrefresh
  have hkeys := checkKnown_ok hknown
  have hkeyed : Keyed s.graph ((fact :: rest).map Fact.key) t :=
    (refresh_maintains (.any s.graph) List.mem_cons_self s ⟨rfl, hkeys⟩).of_ok hrefresh
  have hhead : checkKnown s.facts [fact] = .ok () ∧ checkKnown s.facts rest = .ok () := by
    unfold checkKnown at hknown
    split at hknown
    · next hfact =>
      refine ⟨?_, hknown⟩
      unfold checkKnown
      rw [if_pos hfact]
      rfl
    · cases hknown
  refine ⟨t, takeOver_eq_ok.2 ⟨hp, hhead.1, forM_single_eq_ok hrefresh⟩,
    takeOver_eq_ok.2 ⟨hstanding.trans hp, ?_, hrest⟩⟩
  exact checkKnown_mono hhead.2 fun k hk _ => hkeyed.2 k (List.mem_cons_of_mem _ hk)

/-- A batch of keys is the first of them, and then the others. -/
theorem giveUp_cons {key : Fact.Key} {rest : List Fact.Key} (h : giveUp (key :: rest) s = .ok () s') :
    ∃ t, giveUp [key] s = .ok () t ∧ giveUp rest t = .ok () s' := by
  obtain ⟨hp, hheld, hrun⟩ := giveUp_eq_ok.1 h
  obtain ⟨t, hdetach, hrest⟩ := forM_cons_eq_ok.1 hrun
  have hfacts : t.facts = s.facts.erase key :=
    (detach_erases (E := fun _ => True) (fun _ _ => trivial) s.facts s rfl).of_ok hdetach
  obtain ⟨hstanding, -⟩ := (keepsStanding_detach key s).of_ok hdetach
  unfold checkHeld at hheld
  split at hheld
  · next hkey =>
    refine ⟨t, giveUp_eq_ok.2 ⟨hp, ?_, forM_single_eq_ok hdetach⟩,
      giveUp_eq_ok.2 ⟨hstanding.trans hp, ?_, hrest⟩⟩
    · unfold checkHeld
      rw [if_pos hkey]
      rfl
    · refine checkHeld_mono hheld fun k hkept => ⟨?_, List.not_mem_nil⟩
      obtain ⟨hk, hne⟩ := hkept
      rw [List.mem_singleton] at hne
      unfold Table.contains at hk ⊢
      rw [hfacts, Table.get?_erase, if_neg (Ne.symm hne)]
      exact hk
  · cases hheld

variable {α : Type} {call : List α → Call kind} {take : List α → SessionAction kind Unit}

/-- A call that changes facts, in a session that propagates in batches. -/
theorem run_of_batched (hcall : ∀ as, (call as).run = do take as; afterChange)
    (hkeeps : ∀ as, KeepsStanding (take as)) (hbatched : s.config.propagation = .batched)
    (as : List α) : (call as).run s = take as s := by
  rw [hcall, change_of_batched (hkeeps as) hbatched]

/-- A batch that succeeds has done what single calls do one after the other. -/
theorem replay_of_batch (hcall : ∀ as, (call as).run = do take as; afterChange)
    (hkeeps : ∀ as, KeepsStanding (take as))
    (hnil : ∀ {s s'}, take [] s = .ok () s' → s' = s)
    (hcons : ∀ {a rest s s'}, take (a :: rest) s = .ok () s' →
      ∃ t, take [a] s = .ok () t ∧ take rest t = .ok () s')
    {as : List α} (hbatched : s.config.propagation = .batched) (h : take as s = .ok () s') :
    Call.replay (as.map fun a => call [a]) s = ((as.map fun a => call [a]).map fun _ => .ok (), s') := by
  induction as generalizing s with
  | nil => rw [hnil h]; rfl
  | cons a rest ih =>
    obtain ⟨t, hfirst, hrest⟩ := hcons h
    have hbatched' : t.config.propagation = .batched :=
      ((hkeeps [a] s).of_ok hfirst).2 ▸ hbatched
    rw [List.map_cons, Call.replay, run_of_batched hcall hkeeps hbatched, hfirst]
    dsimp only
    rw [ih hbatched' hrest]
    rfl

end Session

namespace Call

variable {kind : ScoreKind}

/-- The calls that change one fact each, where the call changes several. -/
def singles : Call kind → List (Call kind)
  | insert facts => facts.map fun fact => insert [fact]
  | update facts => facts.map fun fact => update [fact]
  | retract keys => keys.map fun key => retract [key]
  | c => [c]

end Call

namespace Session

variable {kind : ScoreKind} {g : Graph kind} {s : Session kind}

/-- Where visibility is registered by type and changes are propagated in batches, a change that fails
has changed nothing unless it poisons the session, and one that succeeds comes to the same as the
changes of the single facts one after the other. -/
theorem change_all_or_nothing {ds : List (Declaration kind)} (hds : ∀ d ∈ ds, d.Gated)
    (hbuild : (Blueprint.build (Blueprint.declare ds {})).1 = .ok g) (hgraph : s.graph = g)
    (hbatched : s.config.propagation = .batched) {c : Call kind} (hc : c.changes = true) :
    (∀ e s', c.run s = .error e s' → s' = s ∨ s'.poisoned = true) ∧
    ∀ s', c.run s = .ok () s' →
      Call.replay c.singles s = (c.singles.map fun _ => .ok (), s') := by
  have hg : g.Gated := Graph.gated_of_build hds hbuild
  cases c with
  | insert facts =>
    have hcall : ∀ facts, (Call.insert facts : Call kind).run = (do takeIn facts; afterChange) := insert_eq
    have hrun := run_of_batched hcall keepsStanding_takeIn hbatched facts
    refine ⟨fun e s' h => (takeIn_intact hg hgraph facts).of_error (hrun.symm.trans h), fun s' h => ?_⟩
    refine replay_of_batch hcall keepsStanding_takeIn (fun h => ?_) takeIn_cons hbatched
      (hrun.symm.trans h)
    obtain ⟨-, -, -, hnone⟩ := takeIn_eq_ok.1 h
    cases hnone
    rfl
  | update facts =>
    have hcall : ∀ facts, (Call.update facts : Call kind).run = (do takeOver facts; afterChange) := update_eq
    have hrun := run_of_batched hcall keepsStanding_takeOver hbatched facts
    refine ⟨fun e s' h => (takeOver_intact hg hgraph facts).of_error (hrun.symm.trans h), fun s' h => ?_⟩
    refine replay_of_batch hcall keepsStanding_takeOver (fun h => ?_) takeOver_cons hbatched
      (hrun.symm.trans h)
    obtain ⟨-, -, hnone⟩ := takeOver_eq_ok.1 h
    cases hnone
    rfl
  | retract keys =>
    have hcall : ∀ keys, (Call.retract keys : Call kind).run = (do giveUp keys; afterChange) := retract_eq
    have hrun := run_of_batched hcall keepsStanding_giveUp hbatched keys
    refine ⟨fun e s' h => (giveUp_intact keys).of_error (hrun.symm.trans h), fun s' h => ?_⟩
    refine replay_of_batch hcall keepsStanding_giveUp (fun h => ?_) giveUp_cons hbatched
      (hrun.symm.trans h)
    obtain ⟨-, -, hnone⟩ := giveUp_eq_ok.1 h
    cases hnone
    rfl
  | _ => cases hc

/-- Declarations that show one of two facts. -/
def onlyTrue : List (Declaration .simple) :=
  [.visibility (.scalar .bool) ((FactType.scalar .bool).gate fun fact => .ok (fact = .scalar (.bool true))),
    .forEach (.scalar .bool) false, .charge (some ⟨1⟩) "" (.simple 1) .penalty none]

/-- A new session on the graph of `onlyTrue`. -/
def onlyTrueSession : Session .simple := new (Blueprint.declare onlyTrue {}).prune {}

/-- The fact that is shown and the one that is not come in together. -/
theorem onlyTrueSession_takes :
    Action.answers (Call.run (.insert [.scalar (.bool true), .scalar (.bool false)])) onlyTrueSession
        (fun _ => true) = true ∧
      Action.answers (Call.run (.insert [.scalar (.bool true), .scalar (.bool true)])) onlyTrueSession
        (fun _ => true) = false := by
  decide +kernel

/-- They come in one by one as they do together; and no fact comes in twice. -/
theorem change_all_or_nothing_onlyTrue :
    (∃ s', Call.run (.insert [.scalar (.bool true), .scalar (.bool false)]) onlyTrueSession = .ok () s' ∧
      Call.replay [.insert [.scalar (.bool true)], .insert [.scalar (.bool false)]] onlyTrueSession
        = ([.ok (), .ok ()], s')) ∧
    ∃ e s', Call.run (.insert [.scalar (.bool true), .scalar (.bool true)]) onlyTrueSession = .error e s' ∧
      (s' = onlyTrueSession ∨ s'.poisoned = true) := by
  have hgated : ∀ d ∈ onlyTrue, d.Gated := by
    intro d hd
    simp only [onlyTrue, List.mem_cons, List.not_mem_nil, or_false] at hd
    rcases hd with rfl | rfl | rfl
    · exact ⟨_, rfl⟩
    · trivial
    · trivial
  obtain ⟨htakes, hrefuses⟩ := onlyTrueSession_takes
  constructor
  · obtain ⟨_, s', hrun, -⟩ := Action.answers_iff.1 htakes
    have hreplay := (change_all_or_nothing hgated rfl rfl rfl
      (c := .insert [.scalar (.bool true), .scalar (.bool false)]) rfl).2 s' hrun
    exact ⟨s', hrun, hreplay⟩
  · obtain ⟨e, s', hrun⟩ := Action.error_of_answers hrefuses
    have hintact := (change_all_or_nothing hgated rfl rfl rfl
      (c := .insert [.scalar (.bool true), .scalar (.bool true)]) rfl).1 e s' hrun
    exact ⟨e, s', hrun, hintact⟩

end Session

end ConstraintStreams
