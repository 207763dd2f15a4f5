import ConstraintStreams.Graph.Stream
import ConstraintStreams.Proofs.Graph.Arities

/-!
# Streams say what they have

A `TupleStream n` stands for a node whose tuples carry `n` facts. That is so of every stream that the
operations of `TupleStream` answer, also where they are answered by a node that was there before, and it
stays so whatever is declared afterwards.
-/

namespace ConstraintStreams

variable {kind : ScoreKind}

/-- The node of the stream, if it has one, has as many facts as the stream says. -/
def TupleStream.Marks {n : Nat} (s : TupleStream n) (b : Blueprint kind) : Prop :=
  ∀ p, s.node = some p → b.arityOf? p = some n

/-- What can be written next, given some streams of the blueprint, and answers another stream. -/
inductive TupleStream.Operation (given : List (Σ n, TupleStream n)) :
    {n : Nat} → Draft kind (TupleStream n) → Prop
  | forEach (type : FactType) : Operation given (forEach type)
  | forEachIncludingUnassigned (type : FactType) : Operation given (forEachIncludingUnassigned type)
  | forEachUniquePair (type : FactType) (joiners : List Joiner) :
    Operation given (forEachUniquePair type joiners)
  | filter {n : Nat} {s : TupleStream n} (predicate : Handle (Facts → Except Error Bool)) :
    ⟨n, s⟩ ∈ given → Operation given (s.filter predicate)
  | join {m n : Nat} {s : TupleStream m} {t : TupleStream n} (joiners : List Joiner) :
    ⟨m, s⟩ ∈ given → ⟨n, t⟩ ∈ given → Operation given (s.join t joiners)
  | ifExists {m n : Nat} {s : TupleStream m} {t : TupleStream n} (joiners : List Joiner) :
    ⟨m, s⟩ ∈ given → ⟨n, t⟩ ∈ given → Operation given (s.ifExists t joiners)
  | ifNotExists {m n : Nat} {s : TupleStream m} {t : TupleStream n} (joiners : List Joiner) :
    ⟨m, s⟩ ∈ given → ⟨n, t⟩ ∈ given → Operation given (s.ifNotExists t joiners)
  | semijoinOther {n : Nat} {s : TupleStream n} (type : FactType) (expected includeUnassigned : Bool)
    (joiners : List Joiner) :
    ⟨n, s⟩ ∈ given → Operation given (s.semijoinOther type expected includeUnassigned joiners)
  | groupBy {n : Nat} {s : TupleStream n} (key : Handle (Facts → Except Error Fact))
    (collector : Collector) : ⟨n, s⟩ ∈ given → Operation given (s.groupBy key collector)
  | groupByKey {n : Nat} {s : TupleStream n} (key : Handle (Facts → Except Error Fact)) :
    ⟨n, s⟩ ∈ given → Operation given (s.groupByKey key)
  | aggregate {n : Nat} {s : TupleStream n} (collector : Collector) :
    ⟨n, s⟩ ∈ given → Operation given (s.aggregate collector)
  | map {n : Nat} {s : TupleStream n} (mapper : Handle (Facts → Except Error Facts)) (m : Nat) :
    ⟨n, s⟩ ∈ given → Operation given (s.map mapper m)
  | flattenLast {n : Nat} {s : TupleStream n} (items : Handle (Fact → Except Error (List Fact))) :
    ⟨n, s⟩ ∈ given → Operation given (s.flattenLast items)
  | distinct {n : Nat} {s : TupleStream n} : ⟨n, s⟩ ∈ given → Operation given s.distinct
  | concat {n : Nat} {s t : TupleStream n} :
    ⟨n, s⟩ ∈ given → ⟨n, t⟩ ∈ given → Operation given (s.concat t)

/-- Blueprints with the streams that were answered on the way to them. Charges and whatever else may be
declared come in between. -/
inductive Blueprint.Drawn : Blueprint kind → List (Σ n, TupleStream n) → Prop
  | blank : Drawn {} []
  | stream {b : Blueprint kind} {given : List (Σ n, TupleStream n)} {n : Nat}
    {op : Draft kind (TupleStream n)} : Drawn b given → TupleStream.Operation given op →
    Drawn (op b).2 (⟨n, (op b).1⟩ :: given)
  | declared {b : Blueprint kind} {given : List (Σ n, TupleStream n)} (d : Declaration kind) :
    Drawn b given → Drawn (d.run b) given

namespace TupleStream

open Blueprint (Regular Within)

variable {m n : Nat} {s : TupleStream m} {t : TupleStream n} {b b' : Blueprint kind}
  {given : List (Σ n, TupleStream n)}

theorem Marks.within (h : s.Marks b) (hb : b.Within b') : s.Marks b' :=
  fun p hp => hb p m (h p hp)

/-- A stream is made that says what it has, and all other streams still do. -/
structure Marked (b : Blueprint kind) (r : TupleStream n × Blueprint kind) : Prop where
  regular : r.2.Regular
  within : b.Within r.2
  marks : r.1.Marks r.2

/-- A stream says what it has if the key of its declaration says the same, by what is known of the
streams that it is declared on. -/
theorem marked_answer {d : Declaration kind} (hb : b.Regular) (hd : d.charges = false)
    (hkey : ∀ key sizeOf, d.key? = some key → (∀ p k, b.arityOf? p = some k → sizeOf p = some k) →
      key.arity? sizeOf = some n) :
    Marked b ((⟨(d.answer b).1⟩ : TupleStream n), (d.answer b).2) where
  regular := hb.answer d
  within := hb.within_answer d
  marks p hp := by
    obtain ⟨key, hk, harity⟩ := hb.arityOf?_answer hd hp
    exact harity.trans (hkey key _ hk (hb.within_answer d))

/-- A declaration on one stream of as many facts. -/
theorem marked_single {d : Declaration kind} (hb : b.Regular) (hs : s.Marks b) (hd : d.charges = false)
    (hkey : ∀ key, d.key? = some key → ∃ p, s.node = some p ∧ ∀ sizeOf, key.arity? sizeOf = sizeOf p) :
    Marked b ((⟨(d.answer b).1⟩ : TupleStream m), (d.answer b).2) := by
  refine marked_answer hb hd fun key sizeOf hk hsizes => ?_
  obtain ⟨p, hp, harity⟩ := hkey key hk
  exact (harity sizeOf).trans (hsizes p m (hs p hp))

theorem marked_forEach (hb : b.Regular) (type : FactType) (includeUnassigned : Bool) :
    Marked b ((⟨(Blueprint.forEach type includeUnassigned b).1⟩ : TupleStream 1),
      (Blueprint.forEach type includeUnassigned b).2) :=
  marked_answer (d := .forEach type includeUnassigned) hb rfl fun key sizeOf hk _ => by
    cases hk
    rfl

theorem marked_join (hb : b.Regular) (hs : s.Marks b) (ht : t.Marks b) (joiners : List Joiner) :
    Marked b (s.join t joiners b) := by
  refine marked_answer (d := .join s.node t.node joiners) hb rfl fun key sizeOf hk hsizes => ?_
  obtain ⟨l, hl, hk⟩ := Option.bind_eq_some_iff.1 hk
  obtain ⟨r, hr, hk⟩ := Option.bind_eq_some_iff.1 hk
  cases hk
  simp [NodeKey.arity?, hsizes l m (hs l hl), hsizes r n (ht r hr)]

theorem marked_semijoin (hb : b.Regular) (hs : s.Marks b) (right : Option NodeId) (expected : Bool)
    (joiners : List Joiner) :
    Marked b ((⟨(Blueprint.semijoin s.node right expected joiners b).1⟩ : TupleStream m),
      (Blueprint.semijoin s.node right expected joiners b).2) := by
  refine marked_single (d := .semijoin s.node right expected joiners) hb hs rfl fun key hk => ?_
  obtain ⟨l, hl, hk⟩ := Option.bind_eq_some_iff.1 hk
  obtain ⟨r, -, hk⟩ := Option.bind_eq_some_iff.1 hk
  cases hk
  exact ⟨l, hl, fun _ => rfl⟩

theorem marked_group (hb : b.Regular) (key : Option (Handle (Facts → Except Error Fact)))
    (collector : Option Collector) : Marked b (s.group key collector b) := by
  refine marked_answer (d := .group s.node key collector) hb rfl fun k sizeOf hk _ => ?_
  obtain ⟨p, -, hk⟩ := Option.bind_eq_some_iff.1 hk
  cases hk
  cases key <;> cases collector <;> rfl

/-- Every operation answers a stream that says what it has. -/
theorem Operation.marked {op : Draft kind (TupleStream n)} (hop : Operation given op) (hb : b.Regular)
    (hgiven : ∀ e ∈ given, e.2.Marks b) : Marked b (op b) := by
  cases hop with
  | forEach type => exact marked_forEach hb type false
  | forEachIncludingUnassigned type => exact marked_forEach hb type true
  | forEachUniquePair type joiners =>
    have hsource := marked_forEach hb type false
    have hjoin := marked_join hsource.regular hsource.marks hsource.marks
      (joiners ++ [Joiner.uniquePair type])
    exact ⟨hjoin.regular, hsource.within.trans hjoin.within, hjoin.marks⟩
  | @filter _ s predicate hs =>
    refine marked_single (d := .filter s.node predicate) hb (hgiven _ hs) rfl fun key hk => ?_
    obtain ⟨p, hp, hk⟩ := Option.bind_eq_some_iff.1 hk
    cases hk
    exact ⟨p, hp, fun _ => rfl⟩
  | join joiners hs ht => exact marked_join hb (hgiven _ hs) (hgiven _ ht) joiners
  | ifExists joiners hs => exact marked_semijoin hb (hgiven _ hs) _ true joiners
  | ifNotExists joiners hs => exact marked_semijoin hb (hgiven _ hs) _ false joiners
  | semijoinOther type expected includeUnassigned joiners hs =>
    have hother := marked_forEach hb type includeUnassigned
    have hsemijoin := marked_semijoin hother.regular ((hgiven _ hs).within hother.within)
      (Blueprint.forEach type includeUnassigned b).1 expected (joiners ++ [Joiner.otherFact type])
    exact ⟨hsemijoin.regular, hother.within.trans hsemijoin.within, hsemijoin.marks⟩
  | groupBy key collector => exact marked_group hb (some key) (some collector)
  | groupByKey key => exact marked_group hb (some key) none
  | aggregate collector => exact marked_group hb none (some collector)
  | @map _ s mapper _ hs =>
    refine marked_answer (d := .map s.node mapper _) hb rfl fun key sizeOf hk _ => ?_
    obtain ⟨p, -, hk⟩ := Option.bind_eq_some_iff.1 hk
    cases hk
    rfl
  | @flattenLast _ s items hs =>
    refine marked_single (d := .flatten s.node items) hb (hgiven _ hs) rfl fun key hk => ?_
    obtain ⟨p, hp, hk⟩ := Option.bind_eq_some_iff.1 hk
    cases hk
    exact ⟨p, hp, fun _ => rfl⟩
  | @distinct _ s hs =>
    refine marked_single (d := .distinct s.node) hb (hgiven _ hs) rfl fun key hk => ?_
    obtain ⟨p, hp, hk⟩ := Option.bind_eq_some_iff.1 hk
    cases hk
    exact ⟨p, hp, fun _ => rfl⟩
  | @concat _ s t hs ht =>
    refine marked_single (d := .concat s.node t.node) hb (hgiven _ hs) rfl fun key hk => ?_
    obtain ⟨l, hl, hk⟩ := Option.bind_eq_some_iff.1 hk
    obtain ⟨r, -, hk⟩ := Option.bind_eq_some_iff.1 hk
    cases hk
    exact ⟨l, hl, fun _ => rfl⟩

/-- An operation is one declaration or two. -/
theorem Operation.declares {op : Draft kind (TupleStream n)} (hop : Operation given op)
    (b : Blueprint kind) : ∃ ds, (op b).2 = Blueprint.declare ds b := by
  cases hop with
  | forEach type => exact ⟨[.forEach type false], rfl⟩
  | forEachIncludingUnassigned type => exact ⟨[.forEach type true], rfl⟩
  | forEachUniquePair type joiners =>
    let source := (Blueprint.forEach type false b).1
    exact ⟨[.forEach type false, .join source source (joiners ++ [Joiner.uniquePair type])], rfl⟩
  | @filter _ s predicate => exact ⟨[.filter s.node predicate], rfl⟩
  | @join _ _ s t joiners => exact ⟨[.join s.node t.node joiners], rfl⟩
  | @ifExists _ _ s t joiners => exact ⟨[.semijoin s.node t.node true joiners], rfl⟩
  | @ifNotExists _ _ s t joiners => exact ⟨[.semijoin s.node t.node false joiners], rfl⟩
  | @semijoinOther _ s type expected includeUnassigned joiners =>
    let other := (Blueprint.forEach type includeUnassigned b).1
    exact ⟨[.forEach type includeUnassigned,
      .semijoin s.node other expected (joiners ++ [Joiner.otherFact type])], rfl⟩
  | @groupBy _ s key collector => exact ⟨[.group s.node (some key) (some collector)], rfl⟩
  | @groupByKey _ s key => exact ⟨[.group s.node (some key) none], rfl⟩
  | @aggregate _ s collector => exact ⟨[.group s.node none (some collector)], rfl⟩
  | @map _ s mapper => exact ⟨[.map s.node mapper n], rfl⟩
  | @flattenLast _ s items => exact ⟨[.flatten s.node items], rfl⟩
  | @distinct _ s => exact ⟨[.distinct s.node], rfl⟩
  | @concat _ s t => exact ⟨[.concat s.node t.node], rfl⟩

end TupleStream

/-- What is written with streams is a script of declarations. -/
theorem Blueprint.Drawn.eq_declare {b : Blueprint kind} {given : List (Σ n, TupleStream n)}
    (h : b.Drawn given) : ∃ ds, b = declare ds {} := by
  have snoc {b b' : Blueprint kind} {ds : List (Declaration kind)} (hb : ∃ ds, b = declare ds {})
      (hb' : b' = declare ds b) : ∃ ds, b' = declare ds {} := by
    obtain ⟨before, rfl⟩ := hb
    exact ⟨before ++ ds, by rw [hb', declare, declare, declare, List.foldl_append]⟩
  induction h with
  | blank => exact ⟨[], rfl⟩
  | @stream b _ _ _ _ hop ih =>
    obtain ⟨ds, hds⟩ := hop.declares b
    exact snoc ih hds
  | declared d _ ih => exact snoc ih (show _ = Blueprint.declare [d] _ from rfl)

/-- Whatever was written in between, all streams still say what they have. -/
theorem Blueprint.Drawn.marks {b : Blueprint kind} {given : List (Σ n, TupleStream n)}
    (h : b.Drawn given) : b.Regular ∧ ∀ e ∈ given, e.2.Marks b := by
  induction h with
  | blank => exact ⟨.blank, fun e he => by cases he⟩
  | stream _ hop ih =>
    have hmarked := hop.marked ih.1 ih.2
    refine ⟨hmarked.regular, fun e he => ?_⟩
    rcases List.mem_cons.1 he with rfl | he
    · exact hmarked.marks
    · exact (ih.2 e he).within hmarked.within
  | declared d _ ih =>
    exact ⟨ih.1.run d, fun e he => (ih.2 e he).within (Step.within (d.step _) ih.1.sound)⟩

end ConstraintStreams
