import ConstraintStreams.Proofs.Action
import ConstraintStreams.Proofs.Graph.Declaration
import ConstraintStreams.Proofs.Session.Call

/-!
# Poisoned sessions

A flush that stops with an error may leave queues and memories half worked off. Which sessions are
usable afterwards is decided by `Error.poisons`, a test on the error alone. `propagation_failure`
says what follows for every call that propagates: the session is poisoned, and refuses every later
call without changing, exactly if the error is one that poisons. The errors that only report a
search in vain do not, even where a function of the user's returns one in the middle of a flush.
-/

namespace ConstraintStreams

namespace Session

variable {kind : ScoreKind}

/-- The part of `insert` before propagation. -/
def takeIn (facts : List Fact) : SessionAction kind Unit := do
  checkUsable
  let s ← get
  checkNew s.facts facts []
  s.config.limits.check .facts (s.facts.size + facts.length)
  guarded (facts.forM attach)

/-- The part of `update` before propagation. -/
def takeOver (facts : List Fact) : SessionAction kind Unit := do
  checkUsable
  checkKnown (← get).facts facts
  guarded (facts.forM refresh)

/-- The part of `retract` before propagation. -/
def giveUp (keys : List Fact.Key) : SessionAction kind Unit := do
  checkUsable
  checkHeld (← get).facts keys []
  guarded (keys.forM detach)

theorem insert_eq (facts : List Fact) :
    (insert facts : SessionAction kind Unit) = (do takeIn facts; afterChange) := by
  simp [insert, takeIn]

theorem update_eq (facts : List Fact) :
    (update facts : SessionAction kind Unit) = (do takeOver facts; afterChange) := by
  simp [update, takeOver]

theorem retract_eq (keys : List Fact.Key) :
    (retract keys : SessionAction kind Unit) = (do giveUp keys; afterChange) := by
  simp [retract, giveUp]

theorem checkUsable_of_usable {s : Session kind} (h : s.poisoned = false) :
    checkUsable s = .ok () s := by
  simp [checkUsable, h, bind, EStateM.bind]
  rfl

theorem checkUsable_of_poisoned {s : Session kind} (h : s.poisoned = true) :
    checkUsable s = .error .sessionPoisoned s := by
  simp [checkUsable, h, bind, EStateM.bind]
  rfl

theorem guarded_ok {α : Type} {x : SessionAction kind α} {s s' : Session kind} {a : α}
    (h : x s = .ok a s') : guarded x s = .ok a s' := by
  simp [guarded, h]

theorem guarded_error {α : Type} {x : SessionAction kind α} {s s' : Session kind} {e : Error}
    (h : x s = .error e s') :
    guarded x s = .error e (if e.poisons then { s' with poisoned := true } else s') := by
  simp [guarded, h]

theorem guarded_eq_ok {α : Type} {x : SessionAction kind α} {s s' : Session kind} {a : α} :
    guarded x s = .ok a s' ↔ x s = .ok a s' := by
  cases hx : x s with
  | ok b t => rw [guarded_ok hx]
  | error e t => rw [guarded_error hx]; simp

/-! ## Changes keep the standing of a session -/

/-- The session is as usable as before and has the same configuration. -/
def SameStanding (s s' : Session kind) : Prop := s'.poisoned = s.poisoned ∧ s'.config = s.config

theorem SameStanding.trans {s t u : Session kind} (h : SameStanding s t) (h' : SameStanding t u) :
    SameStanding s u :=
  ⟨h'.1.trans h.1, h'.2.trans h.2⟩

/-- Wherever it ends without an error, the work keeps the standing of the session. -/
def KeepsStanding {α : Type} (x : SessionAction kind α) : Prop :=
  ∀ s, Action.Ensures (fun _ => True) x s fun _ s' => SameStanding s s'

namespace KeepsStanding

variable {α β : Type} {x : SessionAction kind α} {f : α → SessionAction kind β}

theorem pure (a : α) : KeepsStanding (pure a : SessionAction kind α) := fun _ => ⟨rfl, rfl⟩

theorem throw (e : Error) : KeepsStanding (throw e : SessionAction kind α) := fun _ => trivial

theorem get : KeepsStanding (get : SessionAction kind (Session kind)) := fun _ => ⟨rfl, rfl⟩

theorem ofExcept (r : Except Error α) : KeepsStanding (Action.ofExcept r : SessionAction kind α) := by
  cases r with
  | ok a => exact pure a
  | error e => exact throw e

theorem modify {u : Session kind → Session kind} (hu : ∀ s, SameStanding s (u s)) :
    KeepsStanding (modify u : SessionAction kind Unit) :=
  fun s => hu s

theorem onNetwork (x : NetworkAction kind α) : KeepsStanding (onNetwork x) := by
  intro s
  refine Action.ensures_within.2 ?_
  unfold Action.Ensures
  split
  · exact ⟨rfl, rfl⟩
  · trivial

theorem bind (hx : KeepsStanding x) (hf : ∀ a, KeepsStanding (f a)) : KeepsStanding (x >>= f) := by
  intro s
  rw [Action.ensures_bind]
  exact (hx s).mono fun a s' h => (hf a s').mono fun _ _ h' => h.trans h'

theorem forM {f : β → SessionAction kind PUnit} (hf : ∀ b, KeepsStanding (f b)) (bs : List β) :
    KeepsStanding (bs.forM f) := by
  induction bs with
  | nil => exact pure _
  | cons b rest ih => exact bind (hf b) fun _ => ih

theorem mapM {f : β → SessionAction kind α} (hf : ∀ b, KeepsStanding (f b)) (bs : List β) :
    KeepsStanding (bs.mapM f) := by
  induction bs with
  | nil => exact pure _
  | cons b rest ih =>
    rw [List.mapM_cons]
    exact bind (hf b) fun _ => bind ih fun _ => pure _

theorem guarded (hx : KeepsStanding x) : KeepsStanding (guarded x) := by
  intro s
  have h := hx s
  unfold Action.Ensures at h ⊢
  cases hs : x s with
  | ok a s' => rw [guarded_ok hs]; rwa [hs] at h
  | error e s' => rw [guarded_error hs]; trivial

end KeepsStanding

theorem keepsStanding_checkUsable : KeepsStanding (checkUsable : SessionAction kind Unit) :=
  .bind .get fun s => by
    split
    · exact .throw _
    · exact .pure _

theorem keepsStanding_attach (fact : Fact) : KeepsStanding (attach fact : SessionAction kind Unit) := by
  have attachAt : ∀ node, KeepsStanding (attachAt fact node : SessionAction kind _) := fun node =>
    .bind .get fun s => .bind (.ofExcept _) fun visible => by
      split
      · exact .bind (.onNetwork _) fun _ => .pure _
      · exact .pure _
  exact .bind .get fun s => .bind (.mapM attachAt _) fun _ => .modify fun _ => ⟨rfl, rfl⟩

theorem keepsStanding_refreshAt (fact : Fact) (node : NodeId) (tuple : Option TupleId) :
    KeepsStanding (refreshAt fact node tuple : SessionAction kind _) :=
  .bind .get fun s => .bind (.ofExcept _) fun visible => by
    split
    · exact .bind (.onNetwork _) fun _ => .pure _
    · exact .bind (.onNetwork _) fun _ => .pure _
    · exact .bind (.onNetwork _) fun _ => .pure _
    · exact .pure _

theorem keepsStanding_refreshTuples (fact old : Fact) (done tuples : List (NodeId × Option TupleId)) :
    KeepsStanding (refreshTuples fact old done tuples : SessionAction kind Unit) := by
  induction tuples generalizing done with
  | nil => exact .pure _
  | cons entry rest ih =>
    exact .bind (keepsStanding_refreshAt fact _ _) fun _ => .bind (.modify fun _ => ⟨rfl, rfl⟩) fun _ => ih _

theorem keepsStanding_refresh (fact : Fact) : KeepsStanding (refresh fact : SessionAction kind Unit) :=
  .bind .get fun s => by
    split
    · exact .throw _
    · exact .bind (keepsStanding_refreshTuples fact _ _ _) fun _ => .modify fun _ => ⟨rfl, rfl⟩

theorem keepsStanding_detach (key : Fact.Key) : KeepsStanding (detach key : SessionAction kind Unit) := by
  intro s
  unfold detach
  rw [Action.ensures_bind]
  simp only [Action.ensures_get]
  split
  · exact ⟨rfl, rfl⟩
  · rw [Action.ensures_bind, Action.ensures_set]
    exact KeepsStanding.forM (fun id => .onNetwork _) _ _

theorem keepsStanding_takeIn (facts : List Fact) :
    KeepsStanding (takeIn facts : SessionAction kind Unit) :=
  .bind keepsStanding_checkUsable fun _ => .bind .get fun _ => .bind (.ofExcept _) fun _ =>
    .bind (.ofExcept _) fun _ => .guarded (.forM keepsStanding_attach facts)

theorem keepsStanding_takeOver (facts : List Fact) :
    KeepsStanding (takeOver facts : SessionAction kind Unit) :=
  .bind keepsStanding_checkUsable fun _ => .bind .get fun _ => .bind (.ofExcept _) fun _ =>
    .guarded (.forM keepsStanding_refresh facts)

theorem keepsStanding_giveUp (keys : List Fact.Key) :
    KeepsStanding (giveUp keys : SessionAction kind Unit) :=
  .bind keepsStanding_checkUsable fun _ => .bind .get fun _ => .bind (.ofExcept _) fun _ =>
    .guarded (.forM keepsStanding_detach keys)

theorem keepsStanding_flush : KeepsStanding (flush : SessionAction kind Nat) :=
  .bind keepsStanding_checkUsable fun _ => .bind .get fun _ => .guarded (.onNetwork _)

theorem keepsStanding_calculateScore :
    KeepsStanding (calculateScore : SessionAction kind (Score kind)) := by
  have flushed : KeepsStanding (discard flush : SessionAction kind PUnit) := by
    intro s
    rw [Action.ensures_discard]
    exact keepsStanding_flush s
  exact .bind flushed fun _ => .bind .get fun _ => .bind (.ofExcept _) fun _ =>
    .bind (.guarded (.ofExcept _)) fun _ => .pure _

/-! ## What a failed flush leaves -/

/-- What is left of a session when its flush stops with an error. -/
def aborted (s : Session kind) (e : Error) (net : Network kind) : Session kind :=
  { s with network := net, poisoned := e.poisons }

theorem flush_error {s : Session kind} {e : Error} {net : Network kind} (usable : s.poisoned = false)
    (fails : Network.flush s.graph s.network = .error e net) :
    flush s = .error e (aborted s e net) := by
  have hnet : onNetwork (Network.flush s.graph) s = .error e { s with network := net } := by
    simp [onNetwork, Action.within, fails]
  have hguard : guarded (onNetwork (Network.flush s.graph)) s = .error e (aborted s e net) := by
    rw [guarded_error hnet]
    cases he : e.poisons <;> simp [aborted, he, usable]
  unfold flush
  rw [Action.bind_ok (checkUsable_of_usable usable)]
  exact hguard

/-- Every call is refused, and none of them changes anything. -/
def RefusesAll (s : Session kind) : Prop :=
  ∀ calls, Call.replay calls s = (calls.map fun _ => .error .sessionPoisoned, s)

end Session

/-- On the way of the call `c` from `s`, what is queued in `t` is propagated. -/
inductive Propagates : Call kind → Session kind → Session kind → Prop
  | flush {s} : Propagates .flush s s
  | calculateScore {s} : Propagates .calculateScore s s
  | matchTotals {s} : Propagates .matchTotals s s
  | indictments {s} : Propagates .indictments s s
  | indictmentOf {s} (key : Fact.Key) : Propagates (.indictmentOf key) s s
  | explain {s} : Propagates .explain s s
  /-- The score is known; the breakdowns are about to be computed. -/
  | explainScored {s t} {score : Score kind} :
    Session.calculateScore s = .ok score t → Propagates .explain s t
  | insert {s t} {facts : List Fact} : s.config.propagation = .immediate →
    Session.takeIn facts s = .ok () t → Propagates (.insert facts) s t
  | update {s t} {facts : List Fact} : s.config.propagation = .immediate →
    Session.takeOver facts s = .ok () t → Propagates (.update facts) s t
  | retract {s t} {keys : List Fact.Key} : s.config.propagation = .immediate →
    Session.giveUp keys s = .ok () t → Propagates (.retract keys) s t

namespace Session

theorem afterChange_error {s : Session kind} {e : Error} {net : Network kind}
    (usable : s.poisoned = false) (immediate : s.config.propagation = .immediate)
    (fails : Network.flush s.graph s.network = .error e net) :
    afterChange s = .error e (aborted s e net) := by
  have h : afterChange s = discard flush s := by
    simp [afterChange, immediate, bind, EStateM.bind]
  rw [h]
  exact Action.map_error (flush_error usable fails)

/-- A call that propagates fails as its flush fails. -/
theorem run_error {c : Call kind} {s t : Session kind} {e : Error} {net : Network kind}
    (usable : s.poisoned = false) (via : Propagates c s t)
    (fails : Network.flush t.graph t.network = .error e net) :
    c.run s = .error e (aborted t e net) := by
  have matchTotals_error {u : Session kind} (hu : u.poisoned = false)
      (hf : Network.flush u.graph u.network = .error e net) :
      matchTotals u = .error e (aborted u e net) :=
    Action.bind_error (Action.map_error (flush_error hu hf))
  cases via with
  | flush => exact Action.map_error (flush_error usable fails)
  | calculateScore =>
    exact Action.map_error (Action.bind_error (Action.map_error (flush_error usable fails)))
  | matchTotals => exact Action.map_error (matchTotals_error usable fails)
  | indictments =>
    exact Action.map_error (Action.bind_error (matchTotals_error usable fails))
  | indictmentOf key =>
    exact Action.map_error (Action.bind_error (Action.bind_error (matchTotals_error usable fails)))
  | explain =>
    exact Action.map_error
      (Action.bind_error (Action.bind_error (Action.map_error (flush_error usable fails))))
  | explainScored h =>
    obtain ⟨hp, -⟩ := (keepsStanding_calculateScore s).of_ok h
    exact Action.map_error ((Action.bind_ok h).trans
      (Action.bind_error (matchTotals_error (hp.trans usable) fails)))
  | insert immediate h =>
    obtain ⟨hp, hc⟩ := (keepsStanding_takeIn _ s).of_ok h
    have := afterChange_error (hp.trans usable) (hc ▸ immediate) fails
    show Session.insert _ s = _
    rw [insert_eq]
    exact (Action.bind_ok h).trans this
  | update immediate h =>
    obtain ⟨hp, hc⟩ := (keepsStanding_takeOver _ s).of_ok h
    have := afterChange_error (hp.trans usable) (hc ▸ immediate) fails
    show Session.update _ s = _
    rw [update_eq]
    exact (Action.bind_ok h).trans this
  | retract immediate h =>
    obtain ⟨hp, hc⟩ := (keepsStanding_giveUp _ s).of_ok h
    have := afterChange_error (hp.trans usable) (hc ▸ immediate) fails
    show Session.retract _ s = _
    rw [retract_eq]
    exact (Action.bind_ok h).trans this

/-- A poisoned session refuses every call. -/
theorem run_of_poisoned {s : Session kind} (h : s.poisoned = true) (c : Call kind) :
    c.run s = .error .sessionPoisoned s := by
  have hu := checkUsable_of_poisoned h
  have hflush : flush s = .error .sessionPoisoned s := Action.bind_error hu
  have htotals : matchTotals s = .error .sessionPoisoned s :=
    Action.bind_error (Action.map_error hflush)
  have hscore : calculateScore s = .error .sessionPoisoned s :=
    Action.bind_error (Action.map_error hflush)
  cases c with
  | insert facts => exact Action.bind_error hu
  | update facts => exact Action.bind_error hu
  | retract keys => exact Action.bind_error hu
  | flush => exact Action.map_error hflush
  | calculateScore => exact Action.map_error hscore
  | clear => exact Action.bind_error hu
  | setWeight id weight => exact Action.bind_error hu
  | matchTotals => exact Action.map_error htotals
  | indictments => exact Action.map_error (Action.bind_error htotals)
  | indictmentOf key => exact Action.map_error (Action.bind_error (Action.bind_error htotals))
  | explain => exact Action.map_error (Action.bind_error hscore)

theorem refusesAll_of_poisoned {s : Session kind} (h : s.poisoned = true) : RefusesAll s := by
  intro calls
  induction calls with
  | nil => rfl
  | cons c rest ih =>
    simp only [Call.replay, run_of_poisoned h c, ih, List.map_cons]

/-- A usable session answers a batch that names a key twice by looking the key up in vain. -/
theorem run_retract_twice {s : Session kind} (h : s.poisoned = false) (key : Fact.Key) :
    (Call.retract [key, key]).run s = .error (missing key.type key.id) s := by
  have held : checkHeld s.facts [key, key] [] = .error (missing key.type key.id) := by
    simp [checkHeld]
  have refused : (liftM (checkHeld s.facts [key, key] []) : SessionAction kind Unit) s
      = .error (missing key.type key.id) s := by
    rw [held]; rfl
  have looked : (get : SessionAction kind (Session kind)) s = .ok s s := rfl
  exact (Action.bind_ok (checkUsable_of_usable h)).trans
    ((Action.bind_ok looked).trans (Action.bind_error refused))

/-- A session refuses every call only if it is poisoned. -/
theorem poisoned_of_refusesAll {s : Session kind} (h : RefusesAll s) : s.poisoned = true := by
  rw [← Bool.not_eq_false]
  intro usable
  let key : Fact.Key := ⟨.list, .number 0⟩
  have hrefused := h [.retract [key, key]]
  simp only [Call.replay, run_retract_twice usable] at hrefused
  simp [missing] at hrefused

/-- A propagation that stops with an error leaves the session as far as it got. It is poisoned then,
and refuses every later call without changing, exactly if the error is one that poisons. -/
theorem propagation_failure {c : Call kind} {s t : Session kind} {e : Error} {net : Network kind}
    (usable : s.poisoned = false) (via : Propagates c s t)
    (fails : Network.flush t.graph t.network = .error e net) :
    c.run s = .error e (aborted t e net) ∧
      ((aborted t e net).poisoned = true ↔ e.poisons = true) ∧
      (RefusesAll (aborted t e net) ↔ e.poisons = true) :=
  ⟨run_error usable via fails, Iff.rfl, fun h => poisoned_of_refusesAll h,
    fun h => refusesAll_of_poisoned h⟩

/-- The declarations of a graph with one filter, whose predicate only ever fails. -/
def failingFilter (e : Error) : List (Declaration .simple) :=
  [.forEach (.scalar .bool) false, .filter (some ⟨1⟩) ⟨.given 0, fun _ => .error e⟩,
    .charge (some ⟨2⟩) "" (.simple 1) .penalty none]

/-- The graph of `failingFilter`. -/
def failingGraph (e : Error) : Graph .simple := (Blueprint.declare (failingFilter e) {}).prune

/-- A session on `failingGraph` that has taken a fact in. -/
def failingSession (e : Error) : Session .simple :=
  match insert [.scalar (.bool true)] (new (failingGraph e) {}) with
  | .ok _ s => s
  | .error _ s => s

/-- The network of `failingSession` after the flush that its filter stops. -/
def failedNetwork (e : Error) : Network .simple :=
  match Network.flush (failingGraph e) (failingSession e).network with
  | .ok _ net => net
  | .error _ net => net

theorem propagation_failure_overflow :
    let e := Error.overflow .sumOfTotals
    let s := failingSession e
    s.poisoned = false ∧ Network.flush s.graph s.network = .error e (failedNetwork e) ∧
      Call.run .flush s = .error e (aborted s e (failedNetwork e)) ∧
      RefusesAll (aborted s e (failedNetwork e)) :=
  have h := propagation_failure (e := .overflow .sumOfTotals)
    (s := failingSession (.overflow .sumOfTotals)) rfl .flush rfl
  ⟨rfl, rfl, h.1, h.2.2.2 rfl⟩

/-- Where a function of the user's reports a search in vain, the session stays usable: the failed
flush has lost the queue, and the next one finds nothing to do. -/
theorem lookup_failure_keeps_usable :
    let e := Error.factNotFound "lookup" 0
    let s := failingSession e
    (failingGraph e).Built ∧ Reached (failingGraph e) s ∧ s.poisoned = false ∧
      Network.flush s.graph s.network = .error e (failedNetwork e) ∧
      Call.run .flush s = .error e (aborted s e (failedNetwork e)) ∧
      (aborted s e (failedNetwork e)).poisoned = false ∧
      (match Call.run .flush (aborted s e (failedNetwork e)) with
        | .ok () _ => True
        | .error _ _ => False) := by
  refine ⟨⟨failingFilter (.factNotFound "lookup" 0), rfl⟩, ?_, rfl, rfl, rfl, rfl, trivial⟩
  exact .done (.insert [.scalar (.bool true)]) (.opened {}) rfl

end Session

end ConstraintStreams
