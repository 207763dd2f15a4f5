import ConstraintStreams.Proofs.Session.Reach

/-!
# No internal faults

An error that reports a broken agreement between queues, tuples and memories, or a counter that would
fall below zero, is a fault of the library. Whatever a session is put through, no call ends with one,
as long as the functions of the user return none: `Session.Holds` rules them all out.
-/

namespace ConstraintStreams

/-- The error reports that the library has broken an agreement of its own. -/
def Error.isFault : Error → Bool
  | .inconsistent _ | .invalidIndex (.tuple _) | .stopped .subtraction => true
  | _ => false

namespace Session

variable {kind : ScoreKind} {g : Graph kind} {s : Session kind}

theorem admits_faultless : Error.Admits fun e => e.isFault = false :=
  ⟨⟨fun _ _ => rfl, fun _ => rfl, fun _ _ => rfl⟩, fun _ _ => rfl, fun _ _ => rfl, fun _ => rfl, rfl⟩

/-- A session that checks nothing reports nothing. -/
theorem checksWithin_production {E : Error → Prop} {config : Config} (h : config.mode = .production) :
    ChecksWithin kind E config := by
  rintro s score e rfl he
  unfold selfCheck at he
  rw [h] at he
  cases he

/-- No call on a session that was reached ends with a fault of the library, and no counter that is
lowered falls below zero: the counters of queued tuples, groups, classes and distinct values report
that as a fault, and an index is counted exactly. A call that makes the session check itself is to be
made without the checks. -/
theorem internal_faults_unreachable (hg : g.Built) (hsafe : g.Safe fun e => e.isFault = false)
    (hs : Reached g s) :
    (∀ (c : Call kind) (e : Error) (s' : Session kind),
      c.scores = false ∨ s.config.mode = .production → c.run s = .error e s' → e.isFault = false) ∧
      ∀ (x : Index JoinKey TupleId) (k : JoinKey) (input : TupleId),
        (x.erase k input).size + (if x.contains k input then 1 else 0) = x.size := by
  refine ⟨fun c e s' hc hrun => ?_, fun x k input => x.size_erase k input⟩
  refine (run_spec hg.wellFormed admits_faultless hsafe (hs.holds hg.wellFormed) c
    fun hscores => checksWithin_production ?_).of_error hrun
  rcases hc with hc | hc
  · rw [hscores] at hc
    cases hc
  · exact hc

/-- The declarations of a graph that counts the pairs of all facts of a type. -/
def pairCount : List (Declaration .simple) :=
  [.forEach (.scalar .bool) false, .join (some ⟨1⟩) (some ⟨1⟩) [], .group (some ⟨2⟩) none (some .count),
    .charge (some ⟨3⟩) "" (.simple 1) .penalty none]

/-- The graph of `pairCount`. -/
def pairGraph : Graph .simple := (Blueprint.declare pairCount {}).prune

/-- A session on `pairGraph` that has taken a fact in, and may make three deliveries a flush. -/
def pairSession : Session .simple :=
  match insert [.scalar (.bool true)] (new pairGraph { limits := { maxOperationsPerFlush := 3 } }) with
  | .ok _ s => s
  | .error _ s => s

theorem safe_pairGraph : pairGraph.Safe fun e => e.isFault = false := by
  intro p n hn
  have h : ∀ e ∈ pairGraph.nodes.entries, e.2.operator.Safe fun e => e.isFault = false := by
    refine List.forall_mem_cons.2 ⟨?_, List.forall_mem_cons.2 ⟨?_, List.forall_mem_cons.2 ⟨?_,
      List.forall_mem_cons.2 ⟨?_, fun _ h => (nomatch h)⟩⟩⟩⟩
    · exact fun predicate h => (nomatch h)
    · exact fun j hj => (nomatch hj)
    · exact ⟨fun f h => (nomatch h), fun c h => by cases h; trivial⟩
    · exact ⟨fun f h => (nomatch h), fun f h => (nomatch h)⟩
  exact h _ (Table.get?_eq_some_iff.1 hn)

/-- The flush would have to make a fourth delivery. -/
theorem pairSession_fails : Action.answers (Call.run .flush) pairSession (fun _ => true) = false := by
  decide +kernel

theorem internal_faults_unreachable_limit : pairGraph.Built ∧ Reached pairGraph pairSession ∧
    ∃ e s', Call.run .flush pairSession = .error e s' ∧ e.isFault = false := by
  have hbuilt : pairGraph.Built := ⟨pairCount, rfl⟩
  have hreached : Reached pairGraph pairSession :=
    .done (.insert [.scalar (.bool true)]) (.opened { limits := { maxOperationsPerFlush := 3 } }) rfl
  obtain ⟨e, s', hrun⟩ := Action.error_of_answers pairSession_fails
  exact ⟨hbuilt, hreached, e, s', hrun,
    (internal_faults_unreachable hbuilt safe_pairGraph hreached).1 .flush e s' (.inl rfl) hrun⟩

end Session

end ConstraintStreams
