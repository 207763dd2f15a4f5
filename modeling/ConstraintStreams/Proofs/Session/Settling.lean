import ConstraintStreams.Proofs.Session.Faultless
import ConstraintStreams.Proofs.Session.Keeping
import ConstraintStreams.Proofs.Session.Tracking

/-!
# A successful flush settles the network

`Unbroken` are the sessions in which no propagation has failed so far; other failures they may have
behind them. Whatever was done to such a session, a flush that succeeds brings its network to rest:
`flush_settles` says what that comes to, and that flushing again changes nothing.
-/

namespace ConstraintStreams

/-- The sessions on a graph that calls lead to, whichever way the calls ended, as long as everything
that was to be propagated on their way could be. -/
inductive Unbroken {kind : ScoreKind} (g : Graph kind) : Session kind → Prop
  | opened (config : Config) (order : TupleStore → HashOrder := fun _ => {}) :
    Unbroken g (Session.new g config order)
  | called {s s' : Session kind} (c : Call kind) : Unbroken g s →
    (s.poisoned = false → ∀ t, Propagates c s t →
      ∃ count net, Network.flush t.graph t.network = .ok count net) →
    (c.run s = .ok () s' ∨ ∃ e, c.run s = .error e s') → Unbroken g s'

namespace Tracks

variable {kind : ScoreKind} {g : Graph kind} {facts : Table Fact.Key SourceFact}
  {net net' : Network kind}

/-- What stands is a matter of the agenda. -/
theorem of_agenda_eq (h : Tracks g facts net) (hK : ∃ K, Network.Consistent g K net')
    (hhoused : Network.Housed g net') (hagenda : net'.agenda = net.agenda) :
    Tracks g facts net' where
  consistent := hK
  housed := hhoused
  keyed := h.keyed
  listed := h.listed
  standing he hm := by
    unfold Network.Stands
    rw [hagenda]
    exact h.standing he hm
  apart := h.apart

/-- Whether or not another weight can be put in force, what is listed stands. -/
theorem keeps_setWeight (p : NodeId) (weight : Score kind) :
    Action.Keeps (Tracks g facts) (Network.setWeight g p weight) := by
  intro net h
  unfold Network.setWeight
  rw [Action.ends_bind, Action.ends_lift]
  refine ⟨fun c hc => ?_, fun _ _ => h⟩
  rw [Action.ends_bind, Action.ends_get]
  split
  · next l hl =>
    obtain ⟨n, hn, hop⟩ := Graph.constraintAt_eq_ok.1 hc
    obtain ⟨K, hK⟩ := h.consistent
    obtain ⟨m, hm, hml⟩ := Option.bind_eq_some_iff.1 hl
    obtain ⟨m', -, hm', -, hvalid, -⟩ := hK.coherent.memory hn
    cases hm.symm.trans hm'
    cases m <;> cases hml
    rw [hop] at hvalid
    refine Action.ends_within.2 (((Ledger.setWeight_spec (E := fun _ => True) hvalid weight _
      fun _ => trivial).ends (R := (· = l)) fun e l' _ hx =>
        (Ledger.setWeight_ends c weight _ l).of_error hx).mono ?_ ?_)
    · rintro _ l' ⟨-, hvalid'⟩
      exact h.of_agenda_eq ⟨K, hK.setMemory hn hm (by rw [hop]; exact hvalid') rfl⟩
        (h.housed.insert hn _) rfl
    · rintro _ rfl
      rwa [Table.insert_eq_self hm]
  · exact h

end Tracks

namespace Session

variable {kind : ScoreKind} {g : Graph kind} {s t : Session kind} {α : Type}

theorem Tracked.poisoned (s : Session kind) (h : Tracked g s) : Tracked g { s with poisoned := true } :=
  ⟨h.graph, h.tracks⟩

theorem ends_checkUsable {Q : Unit → Session kind → Prop} (h : Tracked g s) (hQ : Q () s) :
    Action.Ends checkUsable s Q (Tracked g) := by
  unfold Action.Ends
  cases hp : s.poisoned with
  | true => rw [checkUsable_of_poisoned hp]; exact h
  | false => rw [checkUsable_of_usable hp]; exact hQ

/-! ## Before propagation -/

theorem takeIn_ends (h : Tracked g s) (facts : List Fact) :
    Action.Ends (takeIn facts) s (fun _ => Tracked g) (Tracked g) := by
  unfold takeIn
  rw [Action.ends_bind]
  refine ends_checkUsable h ?_
  rw [Action.ends_bind, Action.ends_get, Action.ends_bind, Action.ends_lift]
  refine ⟨fun _ hnew => ?_, fun _ _ => h⟩
  rw [Action.ends_bind, Action.ends_lift]
  refine ⟨fun _ _ => ?_, fun _ _ => h⟩
  obtain ⟨hfree, hnodup⟩ := checkNew_ok hnew
  refine ends_guarded Tracked.poisoned ((Action.Ends.forM (fun rest s' => Tracked g s' ∧
    (rest.map Fact.key).Nodup ∧ ∀ fact ∈ rest, s'.facts.get? fact.key = none) ?_
    ⟨h, hnodup, fun fact hf => (hfree fact hf).1⟩).mono (fun _ _ h' => h'.1) fun _ => id)
  rintro fact rest s₁ ⟨h₁, hnodup₁, hfree₁⟩
  obtain ⟨hne, hrest⟩ := List.nodup_cons.1 hnodup₁
  refine (attach_ends h₁ (hfree₁ fact List.mem_cons_self)).mono ?_ fun _ => id
  rintro _ s₂ ⟨h₂, hkeys⟩
  refine ⟨h₂, hrest, fun other ho => ?_⟩
  rw [← Option.not_isSome_iff_eq_none, hkeys]
  rintro (hkey | hsome)
  · exact hne (hkey ▸ List.mem_map_of_mem ho)
  · rw [hfree₁ other (List.mem_cons_of_mem _ ho)] at hsome
    cases hsome

theorem takeOver_ends (h : Tracked g s) (facts : List Fact) :
    Action.Ends (takeOver facts) s (fun _ => Tracked g) (Tracked g) := by
  unfold takeOver
  rw [Action.ends_bind]
  refine ends_checkUsable h ?_
  rw [Action.ends_bind, Action.ends_get, Action.ends_bind, Action.ends_lift]
  exact ⟨fun _ _ => ends_guarded Tracked.poisoned (Action.Ends.forM (fun _ => Tracked g)
    (fun _ _ _ h' => refresh_ends h') h), fun _ _ => h⟩

theorem giveUp_ends (h : Tracked g s) (keys : List Fact.Key) :
    Action.Ends (giveUp keys) s (fun _ => Tracked g) (Tracked g) := by
  unfold giveUp
  rw [Action.ends_bind]
  refine ends_checkUsable h ?_
  rw [Action.ends_bind, Action.ends_get, Action.ends_bind, Action.ends_lift]
  exact ⟨fun _ _ => ends_guarded Tracked.poisoned (Action.Ends.forM (fun _ => Tracked g)
    (fun _ _ _ h' => detach_ends h') h), fun _ _ => h⟩

/-! ## Flushes -/

theorem flush_ok {count : Nat} {net : Network kind} (husable : s.poisoned = false)
    (hflush : Network.flush s.graph s.network = .ok count net) :
    flush s = .ok count { s with network := net } := by
  have hnet : onNetwork (Network.flush s.graph) s = .ok count { s with network := net } := by
    simp [onNetwork, Action.within, hflush]
  unfold flush
  rw [Action.bind_ok (checkUsable_of_usable husable)]
  exact guarded_ok hnet

/-- A flush that succeeds is one of the network. -/
theorem flush_eq_ok {count : Nat} (h : flush s = .ok count t) : s.poisoned = false ∧
    ∃ net, Network.flush s.graph s.network = .ok count net ∧ t = { s with network := net } := by
  have husable : s.poisoned = false := by
    rw [← Bool.not_eq_true]
    intro hp
    have hrefused : flush s = .error .sessionPoisoned s :=
      Action.bind_error (checkUsable_of_poisoned hp)
    rw [hrefused] at h
    cases h
  refine ⟨husable, ?_⟩
  cases hnet : Network.flush s.graph s.network with
  | ok n net =>
    rw [flush_ok husable hnet] at h
    cases h
    exact ⟨net, rfl, rfl⟩
  | error e net =>
    rw [flush_error husable hnet] at h
    cases h

/-! ## What lasts as long as propagation succeeds -/

/-- The property lasts through flushes that succeed, and poisoning does not end it. -/
structure Lasts (I : Session kind → Prop) : Prop where
  poisoned : ∀ s, I s → I { s with poisoned := true }
  flushed : ∀ {s s' count}, I s → flush s = .ok count s' → I s'

namespace Lasts

variable {I : Session kind → Prop}

/-- Work after a flush that succeeds. -/
theorem ends_of_flush (hI : Lasts I) (h : I s) (husable : s.poisoned = false)
    (hflush : ∃ count net, Network.flush s.graph s.network = .ok count net)
    {Q : Nat → Session kind → Prop} (hQ : ∀ count s', flush s = .ok count s' → I s' → Q count s') :
    Action.Ends flush s Q I := by
  obtain ⟨count, net, hnet⟩ := hflush
  have hok := flush_ok husable hnet
  unfold Action.Ends
  rw [hok]
  exact hQ count _ hok (hI.flushed h hok)

/-- A change, and its propagation where that is asked for. -/
theorem ends_afterChange (hI : Lasts I) {x : SessionAction kind Unit}
    (hx : Action.Ends x s (fun _ => I) I) (hstanding : KeepsStanding x)
    (husable : s.poisoned = false)
    (hflush : ∀ t, s.config.propagation = .immediate → x s = .ok () t →
      ∃ count net, Network.flush t.graph t.network = .ok count net) :
    Action.Ends (do x; afterChange) s (fun _ => I) I := by
  rw [Action.ends_bind]
  unfold Action.Ends at hx ⊢
  cases ht : x s with
  | error e t => rwa [ht] at hx
  | ok _ t =>
    rw [ht] at hx
    obtain ⟨hp, hc⟩ := (hstanding s).of_ok ht
    show Action.Ends afterChange t _ _
    unfold afterChange
    rw [Action.ends_bind, Action.ends_get]
    split
    · next himmediate =>
      rw [Action.ends_discard]
      exact hI.ends_of_flush hx (hp.trans husable) (hflush t (hc ▸ himmediate) ht)
        fun _ _ _ h' => h'
    · exact hx

theorem ends_calculateScore (hI : Lasts I) (h : I s) (husable : s.poisoned = false)
    (hflush : ∃ count net, Network.flush s.graph s.network = .ok count net) :
    Action.Ends calculateScore s (fun _ => I) I := by
  rw [calculateScore_eq, Action.ends_bind, Action.ends_discard]
  exact hI.ends_of_flush h husable hflush fun _ s' _ h' => keeps_readScore hI.poisoned s' h'

theorem ends_matchTotals (hI : Lasts I) (h : I s) (husable : s.poisoned = false)
    (hflush : ∃ count net, Network.flush s.graph s.network = .ok count net) :
    Action.Ends matchTotals s (fun _ => I) I := by
  rw [matchTotals_eq, Action.ends_bind, Action.ends_discard]
  exact hI.ends_of_flush h husable hflush fun _ s' _ h' => keeps_readTotals hI.poisoned s' h'

/-- A call that computes something keeps what lasts, as long as what it propagates can be. -/
theorem ends_computing (hI : Lasts I) (h : I s) (husable : s.poisoned = false) {c : Call kind}
    (hc : c.computes = true)
    (hflush : ∀ t, Propagates c s t → ∃ count net, Network.flush t.graph t.network = .ok count net) :
    Action.Ends c.run s (fun _ => I) I := by
  cases c with
  | flush =>
    exact Action.ends_discard.2 (hI.ends_of_flush h husable (hflush s .flush) fun _ _ _ h' => h')
  | calculateScore =>
    exact Action.ends_discard.2 (hI.ends_calculateScore h husable (hflush s .calculateScore))
  | matchTotals =>
    exact Action.ends_discard.2 (hI.ends_matchTotals h husable (hflush s .matchTotals))
  | indictments =>
    refine Action.ends_discard.2 ?_
    unfold indictments
    rw [Action.ends_bind]
    exact hI.ends_matchTotals h husable (hflush s .indictments)
  | indictmentOf key =>
    refine Action.ends_discard.2 ?_
    unfold indictmentOf indictments
    rw [Action.ends_bind, Action.ends_bind]
    exact hI.ends_matchTotals h husable (hflush s (.indictmentOf key))
  | explain =>
    have hscore := hI.ends_calculateScore h husable (hflush s .explain)
    refine Action.ends_discard.2 ?_
    unfold explain
    rw [Action.ends_bind]
    unfold Action.Ends at hscore ⊢
    cases ht : calculateScore s with
    | error e t => rwa [ht] at hscore
    | ok score t =>
      rw [ht] at hscore
      obtain ⟨hp', -⟩ := (keepsStanding_calculateScore s).of_ok ht
      show Action.Ends _ t _ _
      rw [Action.ends_bind]
      exact hI.ends_matchTotals hscore (hp'.trans husable) (hflush t (.explainScored ht))
  | _ => cases hc

end Lasts

/-- That what is listed stands lasts. -/
theorem Tracked.lasts (hg : g.WellFormed) : Lasts (Tracked g) where
  poisoned := Tracked.poisoned
  flushed h hflush := by
    obtain ⟨-, net, hnet, rfl⟩ := flush_eq_ok hflush
    rw [h.graph] at hnet
    exact ⟨h.graph, (h.tracks.flushed hg hnet).1⟩

/-! ## Calls -/

/-- The part of `clear` that gives everything up. -/
def startOver : SessionAction kind Unit :=
  modify fun s => { s with network := s.network.reset s.graph, facts := ∅ }

/-- The part of `clear` that puts the weights in force again. -/
def reweigh : SessionAction kind Unit := do
  let s ← get
  guarded (onNetwork (applyWeights s.graph s.weightsInOrder))

theorem clear_eq : (clear : SessionAction kind Unit) = (do checkUsable; startOver; reweigh) := rfl

theorem keeps_startOver : Action.Keeps (Tracked g) startOver := by
  intro s h
  obtain ⟨K, hK⟩ := h.tracks.consistent
  have hblank : Tracks g ∅ (s.network.reset g) :=
    .blank (Network.reset_spec fun p => (hK.coherent.registered p).1).1.consistent
      (Network.housed_reset g s.network)
  exact ⟨h.graph, show Tracks g ∅ (s.network.reset s.graph) from h.graph ▸ hblank⟩

theorem keeps_reweigh : Action.Keeps (Tracked g) reweigh := by
  refine .get_bind fun s h => keeps_guarded Tracked.poisoned fun s' h' => ?_
  rw [h.graph]
  have happly : Action.Keeps (Tracks g s'.facts) (applyWeights g s.weightsInOrder) :=
    .forM (fun e => .lift_bind fun p _ => Tracks.keeps_setWeight p e.2) _
  exact Action.ends_within.2 ((happly _ h'.tracks).mono (fun _ _ h'' => ⟨h'.graph, h''⟩)
    fun _ h'' => ⟨h'.graph, h''⟩)

theorem clear_ends (h : Tracked g s) : Action.Ends clear s (fun _ => Tracked g) (Tracked g) := by
  rw [clear_eq]
  exact Action.Keeps.bind keeps_checkUsable (fun _ => .bind keeps_startOver fun _ => keeps_reweigh) s h

theorem setWeight_ends (h : Tracked g s) (name : ConstraintId) (weight : Score kind) :
    Action.Ends (setWeight name weight) s (fun _ => Tracked g) (Tracked g) := by
  unfold setWeight
  rw [Action.ends_bind]
  refine ends_checkUsable h ?_
  rw [Action.ends_bind, Action.ends_get, Action.ends_bind, Action.ends_lift]
  refine ⟨fun p _ => ?_, fun _ _ => h⟩
  split
  · exact h
  · rw [Action.ends_bind, h.graph]
    refine Action.ends_within.2 ((Tracks.keeps_setWeight p weight _ h.tracks).mono ?_ ?_)
    · exact fun _ _ h' => ⟨h.graph, h'⟩
    · exact fun _ h' => ⟨h.graph, h'⟩

/-- Whichever way a call ends, what is listed stands, as long as everything that is to be propagated
on its way can be. -/
theorem run_ends (hg : g.WellFormed) (h : Tracked g s) (c : Call kind)
    (hflush : s.poisoned = false → ∀ t, Propagates c s t →
      ∃ count net, Network.flush t.graph t.network = .ok count net) :
    Action.Ends c.run s (fun _ => Tracked g) (Tracked g) := by
  cases hp : s.poisoned with
  | true =>
    unfold Action.Ends
    rw [run_of_poisoned hp]
    exact h
  | false =>
    replace hflush := hflush hp
    cases c with
    | insert facts =>
      show Action.Ends (Session.insert facts) s _ _
      rw [insert_eq]
      exact (Tracked.lasts hg).ends_afterChange (takeIn_ends h facts) (keepsStanding_takeIn facts) hp
        fun t himmediate ht => hflush t (.insert himmediate ht)
    | update facts =>
      show Action.Ends (Session.update facts) s _ _
      rw [update_eq]
      exact (Tracked.lasts hg).ends_afterChange (takeOver_ends h facts) (keepsStanding_takeOver facts) hp
        fun t himmediate ht => hflush t (.update himmediate ht)
    | retract keys =>
      show Action.Ends (Session.retract keys) s _ _
      rw [retract_eq]
      exact (Tracked.lasts hg).ends_afterChange (giveUp_ends h keys) (keepsStanding_giveUp keys) hp
        fun t himmediate ht => hflush t (.retract himmediate ht)
    | clear => exact clear_ends h
    | setWeight name weight => exact setWeight_ends h name weight
    | _ => exact (Tracked.lasts hg).ends_computing h hp rfl hflush

end Session

/-- What is listed stands in every session without a failed propagation. -/
theorem Unbroken.tracked {kind : ScoreKind} {g : Graph kind} {s : Session kind} (hg : g.WellFormed)
    (h : Unbroken g s) : s.Tracked g := by
  induction h with
  | opened config order =>
    exact ⟨rfl, .blank (Network.new_spec g config.limits order).1.consistent (Network.housed_reset _ _)⟩
  | called c _ hflush hrun ih =>
    have hends := Session.run_ends hg ih c hflush
    rcases hrun with hrun | ⟨e, hrun⟩
    · exact hends.of_ok hrun
    · exact hends.of_error hrun

namespace Session

variable {kind : ScoreKind} {g : Graph kind} {s s' : Session kind}

/-- A flush that succeeds leaves every queue empty, every tuple settled and nothing to refresh, every
match that a constraint lists live, and every total the exact sum of its entries; and another flush
drains nothing and changes nothing but the count of deliveries. -/
theorem flush_settles (hg : g.Built) (hs : Unbroken g s) {count : Nat}
    (hflush : flush s = .ok count s') :
    Network.Settled g s'.network ∧
      flush s' = .ok 0 { s' with network := { s'.network with operations := 0 } } := by
  have h := hs.tracked hg.wellFormed
  obtain ⟨husable, net, hnet, rfl⟩ := flush_eq_ok hflush
  rw [h.graph] at hnet
  obtain ⟨h', hrest⟩ := h.tracks.flushed hg.wellFormed hnet
  obtain ⟨K, hK⟩ := h'.consistent
  refine ⟨hK.settled hrest h'.housed, ?_⟩
  exact flush_ok husable (by rw [show _ = _ from h.graph]; exact Network.flush_of_rest hrest)

/-- A session on `pairGraph` that has taken a fact in and has nothing propagated yet. -/
def fullPairSession : Session .simple :=
  match insert [.scalar (.bool true)] (new pairGraph {}) with
  | .ok _ s => s
  | .error _ s => s

/-- The fact, its pair with itself, and their count are drained. -/
theorem fullPairSession_flushes : Action.answers flush fullPairSession (· == 3) = true := by
  decide +kernel

/-- Unless changes are propagated at once, taking facts in propagates nothing. -/
theorem unbroken_insert {facts : List Fact} (h : Unbroken g s)
    (hbatched : s.config.propagation = .batched) (hrun : Call.run (.insert facts) s = .ok () s') :
    Unbroken g s' := by
  refine .called (.insert facts) h (fun _ t ht => ?_) (.inl hrun)
  cases ht with
  | insert himmediate =>
    rw [hbatched] at himmediate
    cases himmediate

theorem flush_settles_pairs : pairGraph.Built ∧ Unbroken pairGraph fullPairSession ∧
    ∃ s', flush fullPairSession = .ok 3 s' ∧ Network.Settled pairGraph s'.network ∧
      flush s' = .ok 0 { s' with network := { s'.network with operations := 0 } } := by
  have hbuilt : pairGraph.Built := ⟨pairCount, rfl⟩
  have htaken : Call.run (.insert [.scalar (.bool true)]) (new pairGraph {}) = .ok () fullPairSession :=
    rfl
  have hunbroken : Unbroken pairGraph fullPairSession := unbroken_insert (.opened {}) rfl htaken
  obtain ⟨count, s', hrun, hcount⟩ := Action.answers_iff.1 fullPairSession_flushes
  obtain rfl : count = 3 := beq_iff_eq.1 hcount
  exact ⟨hbuilt, hunbroken, s', hrun, flush_settles hbuilt hunbroken hrun⟩

end Session

end ConstraintStreams
