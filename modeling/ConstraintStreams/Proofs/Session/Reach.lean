import ConstraintStreams.Proofs.Session.Holding

/-!
# Calls keep what holds

Each call, if it succeeds, leaves a session of which `Session.Holds` is true; and it fails only as the
functions of the user fail, at a limit, on overflow or because it was refused. `Reached.holds` puts
the calls of a run together.
-/

namespace ConstraintStreams

theorem Error.Admits.any : Error.Admits fun _ => True :=
  ⟨⟨fun _ _ => trivial, fun _ => trivial, fun _ _ => trivial⟩, fun _ _ => trivial, fun _ _ => trivial,
    fun _ => trivial, trivial⟩

theorem Graph.Safe.any {kind : ScoreKind} (g : Graph kind) : g.Safe fun _ => True := by
  intro p n _
  have hcollector : ∀ acc : Accumulator, acc.Safe fun _ => True := fun acc => by
    cases acc with
    | count => trivial
    | extremum => exact ⟨fun _ _ _ => trivial, .inr fun _ => trivial⟩
    | custom => exact ⟨fun _ _ _ _ _ _ => trivial, fun _ _ _ _ _ _ => trivial⟩
    | _ => exact fun _ _ _ => trivial
  cases n.operator with
  | source => exact fun _ _ _ _ _ => trivial
  | join | semijoin =>
    intro j _
    cases j with
    | indexed => exact ⟨fun _ _ _ => trivial, fun _ _ _ => trivial⟩
    | test => exact fun _ _ _ _ => trivial
  | group => exact ⟨fun _ _ _ _ _ => trivial, fun c _ => hcollector c.start⟩
  | distinct | concat => trivial
  | constraint => exact ⟨fun _ _ _ _ _ => trivial, fun _ _ _ _ _ => trivial⟩
  | _ => exact fun _ _ _ => trivial

/-- The call computes the score, and makes the session check itself where that is asked for. -/
def Call.scores {kind : ScoreKind} : Call kind → Bool
  | calculateScore | explain => true
  | _ => false

namespace Session

variable {kind : ScoreKind} {g : Graph kind} {E : Error → Prop} {s : Session kind} {α : Type}

theorem ensures_guarded {x : SessionAction kind α} {Q : α → Session kind → Prop}
    (h : Action.Ensures E x s Q) : Action.Ensures E (guarded x) s Q := by
  unfold Action.Ensures at h ⊢
  cases hx : x s with
  | ok a s' => rw [guarded_ok hx]; rwa [hx] at h
  | error e s' => rw [guarded_error hx]; rwa [hx] at h

theorem checkUsable_spec (hE : Error.Admits E) :
    Action.Ensures E checkUsable s fun _ s' => s = s' := by
  cases hp : s.poisoned with
  | true =>
    unfold Action.Ensures
    rw [checkUsable_of_poisoned hp]
    exact hE.poisoned
  | false =>
    unfold Action.Ensures
    rw [checkUsable_of_usable hp]

/-! ## Checks on batches -/

/-- A batch of new facts has no key twice, and none that is there already. -/
theorem checkNew_ok {table : Table Fact.Key SourceFact} {facts : List Fact} {seen : List Fact.Key}
    (h : checkNew table facts seen = .ok ()) :
    (∀ fact ∈ facts, table.get? fact.key = none ∧ fact.key ∉ seen) ∧ (facts.map Fact.key).Nodup := by
  induction facts generalizing seen with
  | nil => exact ⟨fun fact hf => (nomatch hf), List.nodup_nil⟩
  | cons fact rest ih =>
    unfold checkNew at h
    split at h
    · cases h
    · next hnew =>
      obtain ⟨hrest, hnodup⟩ := ih h
      obtain ⟨hfree, hseen⟩ := not_or.1 hnew
      refine ⟨fun other ho => ?_, List.nodup_cons.2 ⟨fun hm => ?_, hnodup⟩⟩
      · rcases List.mem_cons.1 ho with rfl | ho
        · exact ⟨by simpa [Table.contains] using hfree, hseen⟩
        · obtain ⟨hn, hs⟩ := hrest other ho
          exact ⟨hn, fun hm => hs (List.mem_cons_of_mem _ hm)⟩
      · obtain ⟨other, ho, hkey⟩ := List.mem_map.1 hm
        exact (hrest other ho).2 (hkey ▸ List.mem_cons_self)

theorem checkNew_error (hE : Error.Admits E) {table : Table Fact.Key SourceFact} {facts : List Fact}
    {seen : List Fact.Key} {e : Error} (h : checkNew table facts seen = .error e) : E e := by
  induction facts generalizing seen with
  | nil => cases h
  | cons fact rest ih =>
    unfold checkNew at h
    split at h
    · cases h; exact hE.duplicate _ _
    · exact ih h

theorem checkKnown_error (hE : Error.Admits E) {table : Table Fact.Key SourceFact} {facts : List Fact}
    {e : Error} (h : checkKnown table facts = .error e) : E e := by
  induction facts with
  | nil => cases h
  | cons fact rest ih =>
    unfold checkKnown at h
    split at h
    · exact ih h
    · cases h; exact hE.missing _ _

theorem checkHeld_error (hE : Error.Admits E) {table : Table Fact.Key SourceFact}
    {keys seen : List Fact.Key} {e : Error} (h : checkHeld table keys seen = .error e) : E e := by
  induction keys generalizing seen with
  | nil => cases h
  | cons key rest ih =>
    unfold checkHeld at h
    split at h
    · exact ih h
    · cases h; exact hE.missing _ _

theorem limits_error (hE : Error.Admits E) {limits : Limits} {limit : Limit} {n : Nat} {e : Error}
    (h : limits.check limit n = .error e) : E e := by
  unfold Limits.check at h
  split at h
  · cases h; exact hE.limit _ _
  · cases h

/-! ## Calls -/

theorem takeIn_spec (hE : Error.Admits E) (hsafe : g.Safe E) (h : Holds g s) (facts : List Fact) :
    Action.Ensures E (takeIn facts) s fun _ s' => Holds g s' ∧ s.network.Amends s'.network := by
  unfold takeIn
  rw [Action.ensures_bind]
  refine (checkUsable_spec hE).mono fun _ s' hs' => ?_
  subst hs'
  rw [Action.ensures_bind, Action.ensures_get, Action.ensures_bind, Action.ensures_lift]
  refine ⟨fun _ hnew => ?_, fun e => checkNew_error hE⟩
  rw [Action.ensures_bind, Action.ensures_lift]
  refine ⟨fun _ _ => ?_, fun e => limits_error hE⟩
  obtain ⟨hfree, hnodup⟩ := checkNew_ok hnew
  refine ensures_guarded ((Action.Ensures.forM (fun rest s' => (Holds g s' ∧
    s.network.Amends s'.network) ∧ (rest.map Fact.key).Nodup ∧
    ∀ fact ∈ rest, s'.facts.get? fact.key = none) ?_
    ⟨⟨h, .refl _⟩, hnodup, fun fact hf => (hfree fact hf).1⟩).mono fun _ _ h' => h'.1)
  rintro fact rest s₁ ⟨⟨h₁, hamends₁⟩, hnodup₁, hfree₁⟩
  obtain ⟨hne, hrest⟩ := List.nodup_cons.1 hnodup₁
  refine (attach_spec hE.toTolerates hsafe h₁ (hfree₁ fact List.mem_cons_self)).mono
    fun _ s₂ ⟨h₂, hamends₂, hkeys⟩ => ⟨⟨h₂, hamends₁.trans hamends₂⟩, hrest, fun other ho => ?_⟩
  rw [← Option.not_isSome_iff_eq_none, hkeys]
  rintro (hkey | hsome)
  · exact hne (hkey ▸ List.mem_map_of_mem ho)
  · rw [hfree₁ other (List.mem_cons_of_mem _ ho)] at hsome
    cases hsome

theorem takeOver_spec (hE : Error.Admits E) (hsafe : g.Safe E) (h : Holds g s) (facts : List Fact) :
    Action.Ensures E (takeOver facts) s fun _ s' => Holds g s' ∧ s.network.Amends s'.network := by
  unfold takeOver
  rw [Action.ensures_bind]
  refine (checkUsable_spec hE).mono fun _ s' hs' => ?_
  subst hs'
  rw [Action.ensures_bind, Action.ensures_get, Action.ensures_bind, Action.ensures_lift]
  refine ⟨fun _ _ => ?_, fun e => checkKnown_error hE⟩
  exact ensures_guarded (Action.Ensures.forM (fun _ s' => Holds g s' ∧ s.network.Amends s'.network)
    (fun _ _ _ ⟨h₁, hamends₁⟩ => (refresh_spec hE hsafe h₁).mono
      fun _ _ ⟨h₂, hamends₂⟩ => ⟨h₂, hamends₁.trans hamends₂⟩) ⟨h, .refl _⟩)

theorem giveUp_spec (hE : Error.Admits E) (h : Holds g s) (keys : List Fact.Key) :
    Action.Ensures E (giveUp keys) s fun _ s' => Holds g s' ∧ s.network.Amends s'.network := by
  unfold giveUp
  rw [Action.ensures_bind]
  refine (checkUsable_spec hE).mono fun _ s' hs' => ?_
  subst hs'
  rw [Action.ensures_bind, Action.ensures_get, Action.ensures_bind, Action.ensures_lift]
  refine ⟨fun _ _ => ?_, fun e => checkHeld_error hE⟩
  exact ensures_guarded (Action.Ensures.forM (fun _ s' => Holds g s' ∧ s.network.Amends s'.network)
    (fun _ _ _ ⟨h₁, hamends₁⟩ => (detach_spec h₁).mono
      fun _ _ ⟨h₂, hamends₂⟩ => ⟨h₂, hamends₁.trans hamends₂⟩) ⟨h, .refl _⟩)

/-- A flush keeps the facts and the weights of a session, and brings its network to rest. -/
theorem flush_spec (hg : g.WellFormed) (hE : Error.Admits E) (hsafe : g.Safe E) (h : Holds g s) :
    Action.Ensures E flush s fun _ s' => Holds g s' ∧ s'.facts = s.facts ∧ s'.weights = s.weights ∧
      Network.AtRest g s'.network := by
  unfold flush
  rw [Action.ensures_bind]
  refine (checkUsable_spec hE).mono fun _ s' hs' => ?_
  subst hs'
  rw [Action.ensures_bind, Action.ensures_get, h.graph]
  obtain ⟨K, hK⟩ := h.sourced.consistent
  refine ensures_guarded (Action.ensures_within.2 (Traced.ensures_flush (s := { net := s.network })
    ((Network.flush_spec hg hsafe hE.toTolerates hK).mono fun _ s' ⟨K', hflushed⟩ => ?_)))
  refine ⟨⟨h.graph, h.sourced.flushed hg hflushed, h.keyed, h.listed, h.visible,
    fun hname hn hc => ?_, h.named⟩, rfl, rfl, hflushed.atRest⟩
  rw [show _ = _ from hflushed.weights _]
  exact h.weighed hname hn hc

theorem afterChange_spec (hg : g.WellFormed) (hE : Error.Admits E) (hsafe : g.Safe E)
    (h : Holds g s) : Action.Ensures E afterChange s fun _ s' => Holds g s' := by
  unfold afterChange
  rw [Action.ensures_bind, Action.ensures_get]
  split
  · rw [Action.ensures_discard]
    exact (flush_spec hg hE hsafe h).mono fun _ _ h' => h'.1
  · exact h

theorem insert_spec (hg : g.WellFormed) (hE : Error.Admits E) (hsafe : g.Safe E) (h : Holds g s)
    (facts : List Fact) : Action.Ensures E (insert facts) s fun _ s' => Holds g s' := by
  rw [insert_eq, Action.ensures_bind]
  exact (takeIn_spec hE hsafe h facts).mono fun _ _ h' => afterChange_spec hg hE hsafe h'.1

theorem update_spec (hg : g.WellFormed) (hE : Error.Admits E) (hsafe : g.Safe E) (h : Holds g s)
    (facts : List Fact) : Action.Ensures E (update facts) s fun _ s' => Holds g s' := by
  rw [update_eq, Action.ensures_bind]
  exact (takeOver_spec hE hsafe h facts).mono fun _ _ h' => afterChange_spec hg hE hsafe h'.1

theorem retract_spec (hg : g.WellFormed) (hE : Error.Admits E) (hsafe : g.Safe E) (h : Holds g s)
    (keys : List Fact.Key) : Action.Ensures E (retract keys) s fun _ s' => Holds g s' := by
  rw [retract_eq, Action.ensures_bind]
  exact (giveUp_spec hE h keys).mono fun _ _ h' => afterChange_spec hg hE hsafe h'.1

/-- Names of constraints lead to constraints of that name. -/
theorem constraintNode_error (hE : Error.Admits E) {name : ConstraintId} {e : Error}
    (h : g.constraintNode name = .error e) : E e := by
  unfold Graph.constraintNode at h
  split at h
  · cases h
  · cases h; exact hE.unnamed _

theorem setWeight_spec (hg : g.WellFormed) (hE : Error.Admits E) (h : Holds g s) (name : ConstraintId)
    (weight : Score kind) : Action.Ensures E (setWeight name weight) s fun _ s' => Holds g s' := by
  unfold setWeight
  rw [Action.ensures_bind]
  refine (checkUsable_spec hE).mono fun _ s' hs' => ?_
  subst hs'
  rw [Action.ensures_bind, Action.ensures_get, h.graph, Action.ensures_bind, Action.ensures_lift]
  refine ⟨fun p hp => ?_, fun e => constraintNode_error hE⟩
  have hname : g.names.get? name = some p := by
    unfold Graph.constraintNode at hp
    split at hp
    · next q hq => cases hp; exact hq
    · cases hp
  obtain ⟨-, n, c, hn, hc, hid⟩ := hg.names hname
  obtain ⟨K, hK⟩ := h.sourced.consistent
  obtain ⟨l, -, hl, -⟩ := hK.ledger hn hc
  rw [hl, if_neg (by simp), Action.ensures_bind]
  refine Action.ensures_within.2 ((Network.setWeight_spec hE.toTolerates h.sourced hn hc).mono
    fun _ net ⟨hsourced, hweights⟩ => ?_)
  rw [Action.ensures_modify]
  refine ⟨h.graph, hsourced, h.keyed, h.listed, h.visible, fun {other q nq cq} hother hnq hcq => ?_,
    fun {other w} hw => ?_⟩
  · rw [show _ = _ from hweights q, Table.get?_insert]
    by_cases hpq : p = q
    · subst hpq
      rw [if_pos rfl, if_pos (hg.name_unique hname hother)]
      rfl
    · have hne : name ≠ other := by
        rintro rfl
        rw [hname] at hother
        exact hpq (Option.some.inj hother)
      rw [if_neg hpq, if_neg hne]
      exact h.weighed hother hnq hcq
  · rw [Table.get?_insert] at hw
    split at hw
    · next he => exact ⟨p, he ▸ hname⟩
    · exact h.named hw

/-- The weights that are left to put in force. -/
theorem applyWeights_spec (hg : g.WellFormed) (hE : Error.Admits E) {net : Network kind} {shown : Shown}
    {weights : Table ConstraintId (Score kind)} (hsourced : Network.Sourced g shown net)
    (hnamed : ∀ {name weight}, weights.get? name = some weight → ∃ p, g.names.get? name = some p)
    (hdefault : ∀ {p n c}, g.nodes.get? p = some n → n.operator = .constraint c →
      net.weightAt p = some c.weight) (order : Arrangement ConstraintId) :
    Action.Ensures E (applyWeights g (weights.inOrder order)) net fun _ net' =>
      Network.Sourced g shown net' ∧ ∀ {name p n c}, g.names.get? name = some p →
        g.nodes.get? p = some n → n.operator = .constraint c →
        net'.weightAt p = some ((weights.get? name).getD c.weight) := by
  unfold applyWeights
  -- The weights that are still to come need not be in force yet.
  refine (Action.Ensures.forM (fun rest net' => Network.Sourced g shown net' ∧
    (∀ e ∈ rest, weights.get? e.1 = some e.2) ∧
    ∀ {name p n c}, name ∉ rest.map Prod.fst → g.names.get? name = some p →
      g.nodes.get? p = some n → n.operator = .constraint c →
      net'.weightAt p = some ((weights.get? name).getD c.weight)) ?_
    ⟨hsourced, fun e he => Table.mem_inOrder.1 he, fun {name p n c} hnew hname hn hc => ?_⟩).mono
    fun _ net' ⟨h', _, hw'⟩ => ⟨h', hw' List.not_mem_nil⟩
  · rintro ⟨name, weight⟩ rest net₁ ⟨h₁, hrest, hweighed⟩
    have hw : weights.get? name = some weight := hrest (name, weight) List.mem_cons_self
    obtain ⟨p, hp⟩ := hnamed hw
    obtain ⟨-, n, c, hn, hc, -⟩ := hg.names hp
    have hnode : g.constraintNode name = .ok p := by simp [Graph.constraintNode, hp]
    rw [Action.ensures_bind, Action.ensures_lift_of_ok hnode]
    refine (Network.setWeight_spec hE.toTolerates h₁ hn hc).mono fun _ net₂ ⟨h₂, hweights⟩ =>
      ⟨h₂, fun e he => hrest e (List.mem_cons_of_mem _ he),
        fun {other q nq cq} hnew hother hnq hcq => ?_⟩
    rw [hweights]
    by_cases hpq : p = q
    · subst hpq
      obtain rfl := hg.name_unique hp hother
      rw [if_pos rfl, hw]
      rfl
    · have hne : name ≠ other := by
        rintro rfl
        rw [hp] at hother
        exact hpq (Option.some.inj hother)
      rw [if_neg hpq]
      exact hweighed (by simpa [Ne.symm hne] using hnew) hother hnq hcq
  · have hnone : weights.get? name = none := by
      rw [Table.get?_eq_none_iff, Table.keys, ← ((weights.inOrder_perm order).map Prod.fst).mem_iff]
      exact hnew
    rw [hnone]
    exact hdefault hn hc

theorem clear_spec (hg : g.WellFormed) (hE : Error.Admits E) (h : Holds g s) :
    Action.Ensures E clear s fun _ s' => Holds g s' := by
  unfold clear
  rw [Action.ensures_bind]
  refine (checkUsable_spec hE).mono fun _ s' hs' => ?_
  subst hs'
  rw [Action.ensures_bind, Action.ensures_modify, Action.ensures_bind, Action.ensures_get, h.graph]
  obtain ⟨hsourced, hdefault⟩ := Network.reset_spec h.sourced.confined
  refine ensures_guarded (Action.ensures_within.2 ((applyWeights_spec hg hE hsourced h.named
    hdefault _).mono fun _ net ⟨hsourced', hweighed⟩ => ?_))
  exact ⟨rfl, hsourced', fun he => (nomatch he), fun he => (nomatch he), fun he => (nomatch he),
    hweighed, h.named⟩

/-- The facts are those of a tuple that the constraint at a node matches. -/
def Matched (s : Session kind) (p : NodeId) (facts : Facts) : Prop :=
  ∃ l id entry, s.network.ledger? p = some l ∧ l.entries.get? id = some entry ∧
    s.network.agenda.facts id = .ok facts

/-- The breakdown of a score fails only as the functions do that say whom to blame. -/
theorem collectMatchTotals_error (hg : g.WellFormed) (hgraph : s.graph = g)
    (hconsistent : ∃ K, Network.Consistent g K s.network)
    (hindicters : ∀ {p c facts e}, g.constraintAt p = .ok c → s.Matched p facts →
      c.indicted facts = .error e → E e)
    {e : Error} (he : s.collectMatchTotals = .error e) : E e := by
  unfold collectMatchTotals at he
  rcases except_bind_eq_error.1 he with he | ⟨_, -, he⟩
  swap
  · cases he
  refine except_error_of_mapM (fun p hp e he => ?_) he
  rw [hgraph] at hp
  obtain ⟨n, c, hn, hc⟩ := hg.constraints p hp
  obtain ⟨K, hK⟩ := hconsistent
  obtain ⟨l, -, hl, hvalid⟩ := hK.ledger hn hc
  have hat : g.constraintAt p = .ok c := Graph.constraintAt_eq_ok.2 ⟨n, hn, hc⟩
  unfold matchTotal? at he
  rw [hgraph] at he
  rcases except_bind_eq_error.1 he with he | ⟨c', hc', he⟩
  · rw [hat] at he
    cases he
  rw [hat] at hc'
  cases hc'
  rw [hl] at he
  rcases except_bind_eq_error.1 he with he | ⟨_, -, he⟩
  swap
  · cases he
  refine except_error_of_mapM (fun entry hm e he => ?_) he
  -- An entry of a ledger is of a tuple that the constraint was told about.
  have hheld := (hvalid.held entry.1).1 (by rw [Table.mem_inOrder.1 hm]; rfl)
  obtain ⟨facts, htold⟩ := Option.isSome_iff_exists.1 hheld
  obtain ⟨t, ht, -⟩ := hK.coherent.feeds htold
  unfold matchOf at he
  rcases except_bind_eq_error.1 he with he | ⟨facts', hfacts, he⟩
  · rw [show _ = _ from Agenda.facts_eq ht] at he
    cases he
  · rcases except_bind_eq_error.1 he with he | ⟨_, -, he⟩
    · exact hindicters hat ⟨l, entry.1, entry.2, hl, Table.mem_inOrder.1 hm, hfacts⟩ he
    · cases he

theorem matchTotals_spec (hg : g.WellFormed) (hE : Error.Admits E) (hsafe : g.Safe E)
    (h : Holds g s) : Action.Ensures E matchTotals s fun _ s' => Holds g s' := by
  unfold matchTotals
  rw [Action.ensures_bind, Action.ensures_discard]
  refine (flush_spec hg hE hsafe h).mono fun _ s' ⟨h', _⟩ => ensures_guarded ?_
  rw [Action.ensures_bind, Action.ensures_get, Action.ensures_lift]
  refine ⟨fun _ _ => h', fun e => collectMatchTotals_error hg h'.graph h'.sourced.consistent ?_⟩
  intro p c facts e hat _ he
  obtain ⟨n, hn, hc⟩ := Graph.constraintAt_eq_ok.1 hat
  have hindicter := hsafe p n hn
  rw [hc] at hindicter
  unfold Constraint.indicted at he
  split at he
  · next indicter hi => exact hindicter.2 indicter hi facts e he
  · cases he

theorem score_error (hE : Error.Admits E) {net : Network kind} {e : Error}
    (h : net.score g = .error e) : E e := by
  refine except_error_of_foldlM (fun total l e he => ?_) h
  split at he
  · cases he
  · cases he; exact hE.overflow _

/-- The errors that the checks of a session may report are of `E`. -/
def ChecksWithin (kind : ScoreKind) (E : Error → Prop) (config : Config) : Prop :=
  ∀ (s : Session kind) score e, s.config = config → s.selfCheck score = .error e → E e

/-- The score answered is that of a network at rest, over the same facts and weights. -/
theorem calculateScore_spec (hg : g.WellFormed) (hE : Error.Admits E) (hsafe : g.Safe E)
    (hchecks : ChecksWithin kind E s.config) (h : Holds g s) :
    Action.Ensures E calculateScore s fun score s' => Holds g s' ∧ s'.facts = s.facts ∧
      s'.weights = s.weights ∧ Network.AtRest g s'.network ∧ s'.network.score g = .ok score := by
  unfold calculateScore
  rw [Action.ensures_bind, Action.ensures_discard]
  refine ((flush_spec hg hE hsafe h).and (keepsStanding_flush s)).mono
    fun _ s' ⟨⟨h', hfacts, hweights, hrest⟩, hstanding⟩ => ?_
  rw [Action.ensures_bind, Action.ensures_get, Action.ensures_bind, Action.ensures_lift, h'.graph]
  refine ⟨fun score hscore => ?_, fun e => score_error hE⟩
  rw [Action.ensures_bind]
  exact ensures_guarded (Action.ensures_ofExcept.2
    ⟨fun _ _ => ⟨h', hfacts, hweights, hrest, hscore⟩, fun e => hchecks s' score e hstanding.2⟩)

/-- Whatever call is made, what holds of a session holds afterwards. -/
theorem run_spec (hg : g.WellFormed) (hE : Error.Admits E) (hsafe : g.Safe E) (h : Holds g s)
    (c : Call kind) (hchecks : c.scores = true → ChecksWithin kind E s.config) :
    Action.Ensures E c.run s fun _ s' => Holds g s' := by
  have matchTotals (s : Session kind) (h : Holds g s) := matchTotals_spec hg hE hsafe h
  have indictments (s : Session kind) (h : Holds g s) :
      Action.Ensures E indictments s fun _ s' => Holds g s' := by
    unfold indictments
    rw [Action.ensures_bind]
    exact matchTotals s h
  cases c with
  | insert facts => exact insert_spec hg hE hsafe h facts
  | update facts => exact update_spec hg hE hsafe h facts
  | retract keys => exact retract_spec hg hE hsafe h keys
  | flush =>
    exact Action.ensures_discard.2 ((flush_spec hg hE hsafe h).mono fun _ _ h' => h'.1)
  | calculateScore =>
    exact Action.ensures_discard.2 ((calculateScore_spec hg hE hsafe (hchecks rfl) h).mono
      fun _ _ h' => h'.1)
  | clear => exact clear_spec hg hE h
  | setWeight name weight => exact setWeight_spec hg hE h name weight
  | matchTotals => exact Action.ensures_discard.2 (matchTotals s h)
  | indictments => exact Action.ensures_discard.2 (indictments s h)
  | indictmentOf key =>
    refine Action.ensures_discard.2 ?_
    unfold indictmentOf
    rw [Action.ensures_bind]
    exact indictments s h
  | explain =>
    refine Action.ensures_discard.2 ?_
    unfold explain
    rw [Action.ensures_bind]
    refine (calculateScore_spec hg hE hsafe (hchecks rfl) h).mono fun _ s' ⟨h', _⟩ => ?_
    rw [Action.ensures_bind]
    exact matchTotals s' h'

theorem new_holds (g : Graph kind) (config : Config) (order : TupleStore → HashOrder) :
    Holds g (new g config order) := by
  obtain ⟨hsourced, hdefault⟩ := Network.new_spec g config.limits order
  exact ⟨rfl, hsourced, fun he => (nomatch he), fun he => (nomatch he), fun he => (nomatch he),
    fun _ hn hc => hdefault hn hc, fun he => (nomatch he)⟩

end Session

/-- What holds of a new session, and is kept by all calls, holds of every session that is reached. -/
theorem Reached.holds {kind : ScoreKind} {g : Graph kind} {s : Session kind} (hg : g.WellFormed)
    (h : Reached g s) : s.Holds g := by
  induction h with
  | opened config order => exact Session.new_holds g config order
  | done c _ hrun ih =>
    exact (Session.run_spec hg .any (.any g) ih c fun _ _ _ _ _ _ => trivial).of_ok hrun
  | refused c _ _ ih => exact ih

end ConstraintStreams
