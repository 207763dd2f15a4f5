import ConstraintStreams.Proofs.Session.Chronicle

/-!
# What is told, is told once

Between two propagations nothing is told, and the agenda takes down what is asked of it. A propagation
that succeeds tells what is due, and leaves nothing to tell. `Chronicle.Faithful` says so of a record
for as long as propagation succeeds, and every call keeps it.
-/

namespace ConstraintStreams

open ConstraintStreams.Action (Keeps)

/-! ## What calls ask of the agenda -/

/-- Putting a weight in force asks nothing of the agenda. -/
theorem Network.keeps_setWeight {kind : ScoreKind} {I : Agenda → Prop} (g : Graph kind) (node : NodeId)
    (weight : Score kind) : Keeps (On I) (setWeight g node weight) := by
  refine .lift_bind fun c _ => .get_bind fun net _ => ?_
  split
  · intro net h
    refine Action.ends_within.2 ?_
    unfold Action.Ends
    split
    · exact h
    · exact h
  · exact .pure _

namespace Session

variable {kind : ScoreKind} {I : Agenda → Prop} {α : Type}

/-- The agenda of the session has the property. -/
def On (I : Agenda → Prop) (s : Session kind) : Prop := I s.network.agenda

theorem keeps_asking {x : NetworkAction kind α} (hx : Keeps (Network.On I) x) :
    Keeps (On I) (onNetwork x) :=
  fun s h => Action.ends_within.2 (hx s.network h)

theorem keepsSources_asking (hI : Agenda.Outlasts I) : KeepsSources (On I : Session kind → Prop) where
  insert p fact := keeps_asking (Network.keeps_onAgenda (hI.create p [fact] .none))
  update id fact := keeps_asking (Network.keeps_onAgenda
    (.bind (hI.setFacts id [fact]) fun _ => hI.update id))
  retract id := keeps_asking (Network.keeps_onAgenda (hI.retract id))

theorem keeps_asking_setWeight (id : ConstraintId) (weight : Score kind) :
    Keeps (On I) (setWeight id weight) := by
  refine .bind keeps_checkUsable fun _ => .get_bind fun s _ => .lift_bind fun node _ => ?_
  have hset : Keeps (On I) (onNetwork (Network.setWeight s.graph node weight)) :=
    keeps_asking (Network.keeps_setWeight s.graph node weight)
  split
  · exact .bind (.throw _) fun _ => .bind hset fun _ => .modify fun _ h => h
  · exact .bind hset fun _ => .modify fun _ h => h

theorem keeps_asking_reweigh : Keeps (On I) (reweigh : SessionAction kind Unit) :=
  .get_bind fun s _ => keeps_guarded (fun _ h => h) (keeps_asking
    (.forM (fun e => .lift_bind fun node _ => Network.keeps_setWeight s.graph node e.2) _))

end Session

/-! ## What is due -/

/-- The queues hold the tuples that are not settled, each once, at their own nodes. -/
structure Agenda.Tidy (g : Agenda) : Prop where
  queued_iff : ∀ {u t}, g.find? u = some t →
    (g.Queued t.node u ↔ t.stage ∈ [Stage.creating, .updating, .dying, .aborting])
  own : ∀ {p u}, g.Queued p u → ∃ t, g.find? u = some t ∧ t.node = p
  once : ∀ {p queue}, g.queues.get? p = some queue → queue.Nodup
  pending : g.pending = (g.queues.values.map List.length).sum

/-- A sound agenda is tidy when no tuple is being looked at. -/
theorem Agenda.Sound.tidy {g : Agenda} (h : g.Sound []) : g.Tidy where
  queued_iff := by
    intro u t ht
    have hdirty := h.dirty_iff ht
    simp only [List.not_mem_nil, false_or] at hdirty
    rw [← hdirty]
    cases t.stage <;> simp [Stage.isDirty]
  own := h.queued
  once := h.queue_nodup
  pending := by rw [h.pending_eq, List.length_flatten]

/-- Each node that has tuples has a turn, and in it tells its children about each tuple what the requests
since the last propagation come to. -/
def Wave.TellsDue {kind : ScoreKind} (g : Graph kind) (w : Wave) : Prop :=
  ∀ p n, g.nodes.get? p = some n → n.operator.ownsTuples = true →
    ∃ r ∈ w.rounds, r.node = p ∧ ∃ requests, Agenda.Window p w.since requests r.agenda ∧
      ∀ l ∈ n.children, ∀ u,
        w.heard l u = (Agenda.due p u (w.since.stageAt p u).isSome requests).toList

namespace Chronicle

variable {kind : ScoreKind} {g : Graph kind} {c : Chronicle kind} {p : NodeId} {n : Node kind}
  {l : Link} {u : TupleId} {α : Type}

/-- What a record says while propagation succeeds. -/
structure Kept (g : Graph kind) (c : Chronicle kind) : Prop where
  tracked : c.session.Tracked g
  settled : ∀ {u t}, c.since.find? u = some t → t.stage = .settled
  asked : ∀ p, ∃ requests, Agenda.Answers p c.since requests c.session.network.agenda
  due : ∀ w ∈ c.waves, w.TellsDue g
  lives : ∀ {p n l}, g.nodes.get? p = some n → n.operator.ownsTuples = true → l ∈ n.children →
    ∀ u, Agenda.Life p u c.since (c.heard l u)

/-- What a record says unless a propagation has failed. -/
def Faithful (g : Graph kind) (c : Chronicle kind) : Prop := c.broken = false → c.Kept g

theorem Kept.continues (h : c.Kept g) : Agenda.Continues c.since c.session.network.agenda := by
  obtain ⟨requests, hanswers⟩ := h.asked ⟨0⟩
  exact hanswers.continues

/-- A new session has nothing to tell. -/
theorem kept_opened (g : Graph kind) (config : Config) (order : TupleStore → HashOrder) :
    (opened g config order).Kept g := by
  obtain ⟨hblank, -⟩ := Network.reset_agenda g { agenda := { limits := config.limits, order } }
  exact
    { tracked :=
        ⟨rfl, .blank (Network.new_spec g config.limits order).1.consistent (Network.housed_reset _ _)⟩
      settled := fun {u t} ht => by cases (hblank.find?_none u).symm.trans ht
      asked := fun p => ⟨[], .blank p hblank⟩
      due := fun w hw => (nomatch hw)
      lives := fun _ _ _ u => .blank (hblank.find?_none u) }

/-- A session that starts over has nothing more to tell, and the names of its tuples are gone for good. -/
theorem Kept.startOver (h : c.Kept g) : Kept g { c with
    session := { c.session with network := c.session.network.reset c.session.graph, facts := ∅ }
    since := (c.session.network.reset c.session.graph).agenda } := by
  obtain ⟨hblank, -⟩ := Network.reset_agenda c.session.graph c.session.network
  refine ⟨Session.keeps_startOver c.session h.tracked, fun {u t} ht => ?_,
    fun p => ⟨[], .blank p hblank⟩, h.due, fun {p n l} hn ho hl u => ?_⟩
  · cases (hblank.find?_none u).symm.trans ht
  · refine (h.lives hn ho hl u).silent (Network.continues_reset h.continues) fun hnow => ?_
    rw [Agenda.stageAt_of_none (hblank.find?_none u)] at hnow
    cases hnow

/-- What a node tells when it is its turn. -/
theorem Kept.turn (hg : g.WellFormed) (h : c.Kept g) {count : Nat} {net : Network kind}
    (hflush : Network.flush g c.session.network = .ok count net) (hn : g.nodes.get? p = some n)
    (ho : n.operator.ownsTuples = true) :
    ∃ r ∈ c.session.network.rounds g, r.node = p ∧ ∃ requests,
      Agenda.Window p c.since requests r.agenda ∧ ∀ l ∈ n.children, ∀ u,
        ((Wave.mk c.since (c.session.network.rounds g)).heard l u =
          (Agenda.due p u (c.since.stageAt p u).isSome requests).toList ∧
        Agenda.Life p u net.agenda (c.heard l u ++
          (Agenda.due p u (c.since.stageAt p u).isSome requests).toList)) := by
  obtain ⟨K, hK⟩ := h.tracked.tracks.consistent
  obtain ⟨-, hrest⟩ := h.tracked.tracks.flushed hg hflush
  have hcontinues : Agenda.Continues c.since net.agenda :=
    (Network.keepsContinues_flush g c.since c.session.network h.continues).of_ok hflush
  obtain ⟨r, hr, rfl, hfair, hlasting, hheard⟩ := Network.turn_spec hg (.any g)
    Error.Admits.any.toTolerates hK h.asked hflush hn ho
  obtain ⟨requests, hanswers⟩ := hfair.asked
  have hfate : ∀ u, r.agenda.stageAt r.node u =
      Agenda.fate r.node u (c.since.stageAt r.node u).isSome requests := by
    refine hanswers.window.stageAt_eq fun {u stage} hu => ?_
    obtain ⟨t, ht, -, rfl⟩ := Agenda.stageAt_eq_some_iff.1 hu
    exact h.settled ht
  refine ⟨r, hr, rfl, requests, hanswers.window, fun l hl u => ⟨?_, ?_⟩⟩
  · show _ = _
    rw [← Agenda.signal?_fate, ← hfate, ← hfair.told l hl u]
    exact hheard l hl u
  · refine (h.lives hn ho hl u).told hcontinues ?_
    -- After the flush a tuple is there exactly if it was not withdrawn when the node had its turn.
    have hopen : (net.agenda.stageAt r.node u).isSome =
        (net.agenda.stageAt r.node u).any Stage.isOpen := by
      cases hstage : net.agenda.stageAt r.node u with
      | none => rfl
      | some stage =>
        obtain ⟨t, ht, -, rfl⟩ := Agenda.stageAt_eq_some_iff.1 hstage
        rw [hrest.settled ht]
        rfl
    rw [hopen, ← Agenda.isSome_openAt, hlasting, Agenda.isSome_openAt, hfate]

/-- A propagation that succeeds tells what is due. -/
theorem Kept.flushed (hg : g.WellFormed) (h : c.Kept g) {count : Nat} {net : Network kind}
    (hflush : Network.flush g c.session.network = .ok count net) :
    Kept g { c with
      session := { c.session with network := net }
      since := net.agenda
      waves := c.waves ++ [⟨c.since, c.session.network.rounds g⟩] } where
  tracked := ⟨h.tracked.graph, (h.tracked.tracks.flushed hg hflush).1⟩
  settled ht := (h.tracked.tracks.flushed hg hflush).2.settled ht
  asked p := by
    have hcontinues : Agenda.Continues c.since net.agenda :=
      (Network.keepsContinues_flush g c.since c.session.network h.continues).of_ok hflush
    exact ⟨[], .start hcontinues.store hcontinues.registered⟩
  due := by
    intro w hw
    rcases List.mem_append.1 hw with hw | hw
    · exact h.due w hw
    · obtain rfl := List.mem_singleton.1 hw
      intro p n hn ho
      obtain ⟨r, hr, hnode, requests, hwindow, htold⟩ := h.turn hg hflush hn ho
      exact ⟨r, hr, hnode, requests, hwindow, fun l hl u => (htold l hl u).1⟩
  lives := by
    intro p n l hn ho hl u
    obtain ⟨-, -, -, requests, -, htold⟩ := h.turn hg hflush hn ho
    obtain ⟨hheard, hlife⟩ := htold l hl u
    unfold heard at hlife ⊢
    rw [List.flatMap_append, List.flatMap_singleton, hheard]
    exact hlife

theorem keeps_flush (hg : g.WellFormed) : Keeps (Faithful g) (flush : ChronicleAction kind Nat) := by
  intro c hc
  unfold Action.Ends flush
  cases hrun : Session.flush c.session with
  | ok count s =>
    intro hbroken
    obtain ⟨-, net, hnet, rfl⟩ := Session.flush_eq_ok hrun
    have hkept := hc hbroken
    have hrounds : c.session.network.rounds c.session.graph = c.session.network.rounds g := by
      rw [hkept.tracked.graph]
    rw [hkept.tracked.graph] at hnet
    rw [hrounds]
    exact hkept.flushed hg hnet
  | error e s =>
    -- A poisoned session has not changed; in any other one, propagation has failed.
    cases hp : c.session.poisoned with
    | false =>
      intro hbroken
      simp at hbroken
    | true =>
      have hrefused : Session.flush c.session = .error .sessionPoisoned c.session :=
        Action.bind_error (Session.checkUsable_of_poisoned hp)
      cases hrefused.symm.trans hrun
      show Faithful g { c with broken := c.broken || !true }
      rw [Bool.not_true, Bool.or_false]
      exact hc

/-- Work that propagates nothing, and does no more to the agenda than it asks for. -/
theorem keeps_onSession {x : SessionAction kind α} (htracked : Keeps (Session.Tracked g) x)
    (hasking : ∀ {I}, Agenda.Outlasts I → Keeps (Session.On I) x) :
    Keeps (Faithful g) (onSession x) := by
  intro c hc
  refine Action.ends_within.2 ?_
  by_cases hbroken : c.broken = false
  · have hkept := hc hbroken
    have hasked := Keeps.all fun p => hasking (Agenda.Answers.outlasts p c.since)
    have hkeep : ∀ s, (s.Tracked g ∧ ∀ p, Session.On
        (fun agenda => ∃ requests, Agenda.Answers p c.since requests agenda) s) →
        Faithful g { c with session := s } :=
      fun s h _ => ⟨h.1, hkept.settled, h.2, hkept.due, hkept.lives⟩
    exact (htracked.and hasked c.session ⟨hkept.tracked, hkept.asked⟩).mono (fun _ s h => hkeep s h)
      fun s h => hkeep s h
  · unfold Action.Ends
    split
    · exact fun h => absurd h hbroken
    · exact fun h => absurd h hbroken

theorem keeps_afterChange (hg : g.WellFormed) :
    Keeps (Faithful g) (afterChange : ChronicleAction kind Unit) := by
  refine .get_bind fun c _ => ?_
  split
  · exact .discard (keeps_flush hg)
  · exact .pure _

theorem keeps_calculateScore (hg : g.WellFormed) :
    Keeps (Faithful g) (calculateScore : ChronicleAction kind (Score kind)) :=
  .bind (.discard (keeps_flush hg)) fun _ =>
    keeps_onSession (Session.keeps_readScore Session.Tracked.poisoned) fun _ =>
      Session.keeps_readScore fun _ h => h

theorem keeps_matchTotals (hg : g.WellFormed) :
    Keeps (Faithful g) (matchTotals : ChronicleAction kind (List (MatchTotal kind))) :=
  .bind (.discard (keeps_flush hg)) fun _ =>
    keeps_onSession (Session.keeps_readTotals Session.Tracked.poisoned) fun _ =>
      Session.keeps_readTotals fun _ h => h

theorem keeps_clear : Keeps (Faithful g) (clear : ChronicleAction kind Unit) := by
  refine .bind (keeps_onSession Session.keeps_checkUsable fun _ => Session.keeps_checkUsable) fun _ => ?_
  intro c hc
  rw [Action.ends_bind]
  refine Action.ends_within.2 ?_
  unfold Session.startOver
  rw [Action.ends_modify, Action.ends_bind, Action.ends_modify]
  exact keeps_onSession Session.keeps_reweigh (fun _ => Session.keeps_asking_reweigh) _
    fun hbroken => (hc hbroken).startOver

/-- Every call tells only what is due, whichever way it ends. -/
theorem keeps_run (hg : g.WellFormed) (call : Call kind) : Keeps (Faithful g) (run call) := by
  have changes {x : SessionAction kind Unit} (htracked : Keeps (Session.Tracked g) x)
      (hasking : ∀ {I}, Agenda.Outlasts I → Keeps (Session.On I) x) :
      Keeps (Faithful g) (do onSession x; afterChange) :=
    .bind (keeps_onSession htracked hasking) fun _ => keeps_afterChange hg
  cases call with
  | insert facts =>
    exact changes (fun s h => Session.takeIn_ends h facts) fun hI =>
      Session.keeps_takeIn (Session.keepsSources_asking hI) (fun _ _ h => h) (fun _ h => h) facts
  | update facts =>
    exact changes (fun s h => Session.takeOver_ends h facts) fun hI =>
      Session.keeps_takeOver (Session.keepsSources_asking hI) (fun _ _ h => h) (fun _ h => h) facts
  | retract keys =>
    exact changes (fun s h => Session.giveUp_ends h keys) fun hI =>
      Session.keeps_giveUp (Session.keepsSources_asking hI) (fun _ _ h => h) (fun _ h => h) keys
  | flush => exact .discard (keeps_flush hg)
  | calculateScore => exact .discard (keeps_calculateScore hg)
  | clear => exact keeps_clear
  | setWeight id weight =>
    exact keeps_onSession (fun s h => Session.setWeight_ends h id weight) fun _ =>
      Session.keeps_asking_setWeight id weight
  | matchTotals => exact .discard (keeps_matchTotals hg)
  | indictments => exact .discard (.bind (keeps_matchTotals hg) fun _ => .pure _)
  | indictmentOf key =>
    exact .discard (.bind (.bind (keeps_matchTotals hg) fun _ => .pure _) fun _ => .pure _)
  | explain =>
    exact .discard (.bind (keeps_calculateScore hg) fun _ => .bind (keeps_matchTotals hg) fun _ =>
      .pure _)

theorem Faithful.after (hg : g.WellFormed) (hc : Faithful g c) (call : Call kind) :
    Faithful g (c.after call) := by
  have hends := keeps_run hg call c hc
  unfold Chronicle.after
  cases hrun : run call c with
  | ok _ c' => exact hends.of_ok hrun
  | error _ c' => exact hends.of_error hrun

/-- The record of a run tells only what is due. -/
theorem faithful_recorded (hg : g.WellFormed) (config : Config) (order : TupleStore → HashOrder)
    (calls : List (Call kind)) : Faithful g (recorded g config order calls) := by
  have hfold : ∀ (calls : List (Call kind)) {c}, Faithful g c →
      Faithful g (calls.foldl Chronicle.after c) := by
    intro calls
    induction calls with
    | nil => exact fun h => h
    | cons call rest ih => exact fun h => ih (h.after hg call)
  exact hfold calls fun _ => kept_opened g config order

/-- The queues hold the tuples that are not settled, each once and at its own node. Every propagation
told the children of a node what was due since the one before. Over the whole run a child heard about a
tuple the beginning of `insert update* retract`, and once it has heard that a tuple is gone, the name of
the tuple is not in use any more. -/
structure TellsOnce (g : Graph kind) (c : Chronicle kind) : Prop where
  tidy : c.session.network.agenda.Tidy
  due : ∀ w ∈ c.waves, w.TellsDue g
  lifecycle : ∀ {p n l}, g.nodes.get? p = some n → n.operator.ownsTuples = true → l ∈ n.children →
    ∀ u, Lifecycle (c.heard l u)
  gone : ∀ {p n l}, g.nodes.get? p = some n → n.operator.ownsTuples = true → l ∈ n.children →
    ∀ u, .retract ∈ c.heard l u → c.session.network.agenda.find? u = none

/-- A run in which no propagation has failed tells everything once. Its record is one of the session that
the calls lead to. -/
theorem recorded_tellsOnce (hg : g.Built) (config : Config) (order : TupleStore → HashOrder)
    (calls : List (Call kind)) (hbroken : (recorded g config order calls).broken = false) :
    (recorded g config order calls).session = (Call.replay calls (.new g config order)).2 ∧
      (recorded g config order calls).TellsOnce g := by
  have hkept := faithful_recorded hg.wellFormed config order calls hbroken
  obtain ⟨K, hK⟩ := hkept.tracked.tracks.consistent
  refine ⟨session_foldl calls (opened g config order), hK.coherent.sound.tidy, hkept.due, ?_, ?_⟩
  · intro p n l hn ho hl u
    exact (hkept.lives hn ho hl u).lifecycle
  · intro p n l hn ho hl u hretracted
    exact (hkept.continues.stays_gone ((hkept.lives hn ho hl u).retracted hretracted)).1

/-- On `pairGraph` a fact comes, changes and goes, with a flush after each. -/
def pairCalls : List (Call .simple) :=
  [.insert [.scalar (.bool true)], .flush, .update [.scalar (.bool true)], .flush,
    .retract [(Fact.scalar (.bool true)).key], .flush]

/-- All three flushes succeed, and the join hears of the tuple of the fact on either side. -/
theorem pairCalls_heard :
    (recorded Session.pairGraph {} (fun _ => {}) pairCalls).broken = false ∧
      ∀ side ∈ [Side.left, Side.right],
        (recorded Session.pairGraph {} (fun _ => {}) pairCalls).heard ⟨⟨2⟩, side⟩ ⟨0, 0⟩ =
          [.insert, .update, .retract] := by
  decide +kernel

theorem recorded_tellsOnce_pairs :
    Session.pairGraph.Built ∧ (recorded Session.pairGraph {} (fun _ => {}) pairCalls).broken = false ∧
      (recorded Session.pairGraph {} (fun _ => {}) pairCalls).session =
        (Call.replay pairCalls (.new Session.pairGraph {})).2 ∧
      (recorded Session.pairGraph {} (fun _ => {}) pairCalls).TellsOnce Session.pairGraph := by
  have hbuilt : Session.pairGraph.Built := ⟨Session.pairCount, rfl⟩
  exact ⟨hbuilt, pairCalls_heard.1, recorded_tellsOnce hbuilt {} _ pairCalls pairCalls_heard.1⟩

end Chronicle

end ConstraintStreams
