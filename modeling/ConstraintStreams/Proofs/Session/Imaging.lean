import ConstraintStreams.Proofs.Image.Inputs
import ConstraintStreams.Proofs.Session.Representing
import ConstraintStreams.Proofs.Session.Settling

/-!
# Images after a flush

After every flush that succeeds, in a session in which no propagation has failed, the live tuples of
maps, flattenings and concatenations are the image of what their parents offer them.
-/

namespace ConstraintStreams

namespace Session

variable {kind : ScoreKind} {g : Graph kind} {s s' : Session kind} {p : NodeId} {n : Node kind}

/-- After a flush that succeeds, every map has one live tuple for each input, every flattening one for
each item, every concatenation one for each input on either side, and they have no others. -/
theorem images_exact (hg : g.Built) (hs : Unbroken g s) {count : Nat} (hflush : flush s = .ok count s')
    (hn : g.nodes.get? p = some n) : Network.Images g s'.network p n := by
  have h := hs.tracked hg.wellFormed
  obtain ⟨-, net, hnet, rfl⟩ := flush_eq_ok hflush
  rw [h.graph] at hnet
  obtain ⟨h', hrest⟩ := h.tracks.flushed hg.wellFormed hnet
  obtain ⟨K, hK⟩ := h'.consistent
  exact hK.images hg.wellFormed hrest hn

/-- The declarations of a graph that charges every fact twice, by two ways into one stream. -/
def bothWays : List (Declaration .simple) :=
  [.forEach (.scalar .bool) false, .filter (some ⟨1⟩) ⟨.given 0, fun _ => .ok true⟩,
    .concat (some ⟨1⟩) (some ⟨2⟩), .charge (some ⟨3⟩) "" (.simple 1) .penalty none]

/-- The graph of `bothWays`. -/
def bothWaysGraph : Graph .simple := (Blueprint.declare bothWays {}).prune

/-- A session on `bothWaysGraph` that has taken a fact in. -/
def bothWaysSession : Session .simple :=
  (Call.replay [.insert [.scalar (.bool true)]] (new bothWaysGraph {})).2

/-- The fact and its two copies are drained. -/
theorem bothWaysSession_flushes : Action.answers flush bothWaysSession (· == 3) = true := by
  decide +kernel

theorem images_exact_bothWays : bothWaysGraph.Built ∧ Unbroken bothWaysGraph bothWaysSession ∧
    ∃ s' n, flush bothWaysSession = .ok 3 s' ∧ bothWaysGraph.nodes.get? ⟨3⟩ = some n ∧
      n.operator = .concat ∧ Network.Images bothWaysGraph s'.network ⟨3⟩ n := by
  have hbuilt : bothWaysGraph.Built := ⟨bothWays, rfl⟩
  have hinserted : Call.run (.insert [.scalar (.bool true)]) (new bothWaysGraph {}) =
    .ok () bothWaysSession := rfl
  have hunbroken : Unbroken bothWaysGraph bothWaysSession :=
    unbroken_insert (.opened {}) rfl hinserted
  obtain ⟨count, s', hrun, hcount⟩ := Action.answers_iff.1 bothWaysSession_flushes
  obtain rfl : count = 3 := beq_iff_eq.1 hcount
  obtain ⟨n, hn, hop⟩ : ∃ n, bothWaysGraph.nodes.get? ⟨3⟩ = some n ∧ n.operator = .concat :=
    ⟨_, rfl, rfl⟩
  exact ⟨hbuilt, hunbroken, s', n, hrun, hn, hop, images_exact hbuilt hunbroken hrun hn⟩

/-- The declarations of a graph whose filter looks up marked entities in vain, beside a map. -/
def vainLookup : List (Declaration .simple) :=
  [.forEach (.entity markable) false,
    .filter (some ⟨1⟩) ⟨.given 0, fun facts =>
      if facts.all isMarked then .error (.factNotFound "lookup" 0) else .ok true⟩,
    .charge (some ⟨2⟩) "c" (.simple 1) .penalty none, .map (some ⟨1⟩) ⟨.given 1, .ok⟩ 1,
    .charge (some ⟨4⟩) "d" (.simple 1) .penalty none]

/-- The graph of `vainLookup`. -/
def vainLookupGraph : Graph .simple := (Blueprint.declare vainLookup {}).prune

/-- An entity came in unmarked, was marked after a flush, and was flushed in vain. -/
def vainCalls : List (Call .simple) :=
  [.insert [marked false], .flush, .update [marked true], .flush]

theorem vainCalls_end :
    (Call.replay vainCalls (new vainLookupGraph {})).1.map Except.isOk = [true, true, true, false] ∧
    Action.attains flush (Call.replay vainCalls (new vainLookupGraph {})).2 (fun count s' => count == 0 &&
      (s'.network.agenda.tuples.live.entries.all fun e =>
        e.2.node != ⟨1⟩ || e.2.facts == [marked true]) &&
      match s'.network.agenda.find? ⟨1, 0⟩ with
      | some t => t.node == ⟨4⟩ && t.stage.isLive && t.facts == [marked false]
      | none => false) = true := by
  decide +kernel

/-- A filter that looks something up in vain stops a flush and leaves the session usable. The map after it
was not told of the change, and the next flush does not tell it either: its tuple keeps the facts of the
version that is gone. -/
theorem images_exact_fails : vainLookupGraph.Built ∧
    (Call.replay vainCalls (new vainLookupGraph {})).1.map Except.isOk = [true, true, true, false] ∧
    ∃ s' n, flush (Call.replay vainCalls (new vainLookupGraph {})).2 = .ok 0 s' ∧
      vainLookupGraph.nodes.get? ⟨4⟩ = some n ∧
      ¬ Network.Images vainLookupGraph s'.network ⟨4⟩ n := by
  obtain ⟨hcalls, hflushes⟩ := vainCalls_end
  obtain ⟨count, s', hrun, hend⟩ := Action.attains_iff.1 hflushes
  refine ⟨⟨vainLookup, rfl⟩, hcalls, ?_⟩
  simp only [Bool.and_eq_true, beq_iff_eq, List.all_eq_true] at hend
  obtain ⟨⟨rfl, hsources⟩, hmapped⟩ := hend
  obtain ⟨n, hn, hop, hparents⟩ : ∃ n, vainLookupGraph.nodes.get? ⟨4⟩ = some n ∧
      n.operator = .map ⟨.given 1, .ok⟩ ∧ n.parents = [⟨1⟩] := ⟨_, rfl, rfl, rfl⟩
  refine ⟨s', n, hrun, hn, fun himages => ?_⟩
  obtain ⟨output, hbij, hdue⟩ := himages.map hop
  split at hmapped
  · next t ht =>
    simp only [Bool.and_eq_true, beq_iff_eq] at hmapped
    have hlive : s'.network.LiveAt ⟨4⟩ ⟨1, 0⟩ [marked false] :=
      ⟨t, ht, hmapped.1.1, hmapped.1.2, hmapped.2⟩
    obtain ⟨u, hu, houtput⟩ := hbij.surjOn ⟨_, hlive⟩
    obtain ⟨facts, ⟨q, hq, hoffers⟩, image, number, himage, hshown⟩ :=
      hdue u [marked false] hu (houtput ▸ hlive)
    rw [hparents] at hq
    obtain ⟨rfl, -⟩ := Prod.mk.inj (List.mem_singleton.1 hq)
    have hfacts : facts = [marked true] := by
      cases hoffers with
      | own hlive =>
        obtain ⟨t, ht, hnode, -, rfl⟩ := hlive
        simpa [hnode] using hsources (u, t) (Table.get?_eq_some_iff.1 ht)
      | accepted hn hop =>
        cases hn
        cases hop
    cases himage
    rw [hfacts, show (Fact.numberItemsFrom number [marked true]).1 = [marked true] from rfl] at hshown
    exact absurd hshown (by decide)
  · cases hmapped

end Session

end ConstraintStreams
