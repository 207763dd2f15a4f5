import ConstraintStreams.Fact.Text
import ConstraintStreams.Session.Basic

/-!
# Explanations

A score broken down twice: by constraint, into the matches that make up each total, and by fact,
into the matches that blame it. Both are listed in a fixed order: matches by the ids of their facts,
indictments by their score, type and id. Where ids are digests, texts take their place.
-/

namespace ConstraintStreams

/-- A tuple that a constraint matches. -/
structure Match (kind : ScoreKind) where
  constraint : ConstraintId
  facts : List Fact
  matchWeight : Int64
  score : Score kind
  /-- The facts that the match is blamed on. -/
  indicted : List Fact
  deriving DecidableEq

/-- The matches of a constraint, its weight and its total. -/
structure MatchTotal (kind : ScoreKind) where
  constraint : ConstraintId
  weight : Score kind
  total : Score kind
  «matches» : List (Match kind)

/-- All that a fact is blamed for. -/
structure Indictment (kind : ScoreKind) where
  fact : Fact
  score : Score kind
  «matches» : List (Match kind)

/-- A score with its breakdowns. -/
structure Explanation (kind : ScoreKind) where
  score : Score kind
  totals : List (MatchTotal kind)
  indictments : List (Indictment kind)

/-! ## Order -/

/-- The fact has no number for an id. -/
def Fact.isDigested (a : Fact) : Bool :=
  match a.id with
  | .digest _ => true
  | .number _ => false

/-- Lists of ids in lexicographic order. -/
def Fact.Id.orderLists : List Fact.Id → List Fact.Id → Ordering
  | [], [] => .eq
  | [], _ :: _ => .lt
  | _ :: _, [] => .gt
  | a :: as, b :: bs => (a.order b).then (orderLists as bs)

namespace Match

variable {kind : ScoreKind}

/-- The text that orders matches whose ids do not. -/
def sortText (m : Match kind) : String :=
  "|".intercalate (Fact.texts m.facts) ++ "@" ++ toString m.matchWeight ++ "@"
    ++ "|".intercalate (Fact.texts m.indicted)

/-- Matches by the ids of their facts, then by text. -/
def order (a b : Match kind) : Ordering :=
  (Fact.Id.orderLists (a.facts.map Fact.id) (b.facts.map Fact.id)).then
    (compareOfLessAndEq a.sortText b.sortText)

/-- Sorts the matches of one constraint; by text alone if any of their facts has a digest for an
id. -/
def sort (ms : List (Match kind)) : List (Match kind) :=
  if ms.any fun m => m.facts.any Fact.isDigested then
    ms.mergeSort fun a b => (compareOfLessAndEq a.sortText b.sortText).isLE
  else ms.mergeSort fun a b => (a.order b).isLE

/-- The match is blamed on the fact with a key. -/
def blames (m : Match kind) (key : Fact.Key) : Bool := m.indicted.any fun a => a.key = key

end Match

namespace Indictment

variable {kind : ScoreKind}

/-- Indictments by score, then by the type of their facts, then by id or text. -/
def order (a b : Indictment kind) : Ordering :=
  (compare a.score b.score).then <|
    (compareOfLessAndEq a.fact.type.name b.fact.type.name).then <|
      if a.fact.isDigested ∧ b.fact.isDigested then compareOfLessAndEq a.fact.text b.fact.text
      else a.fact.id.order b.fact.id

/-- How many matches of each constraint blame the fact, by the texts of the constraints' names and,
where two names read the same, by number. -/
def matchCounts (i : Indictment kind) : List (ConstraintId × Nat) :=
  let ids := (i.matches.map (·.constraint)).eraseDups
  (ids.map fun id => (id, i.matches.countP fun m => m.constraint = id)).mergeSort
    fun a b => ((compareOfLessAndEq a.1.text b.1.text).then (compareOfLessAndEq a.2 b.2)).isLE

end Indictment

/-! ## Breaking a score down by fact -/

/-- Adds a match to the indictment of one of the facts it is blamed on. -/
def blame {kind : ScoreKind} (m : Match kind) (table : Table Fact.Key (Indictment kind))
    (fact : Fact) : Except Trap (Table Fact.Key (Indictment kind)) := do
  let i := (table.get? fact.key).getD ⟨fact, .zero, []⟩
  let score ← i.score.trappingAdd m.score
  pure (table.insert fact.key { i with score, «matches» := i.matches ++ [m] })

/-- The facts without those that have the key of an earlier one. -/
def dedupKeys : List Fact → List Fact.Key → List Fact
  | [], _ => []
  | a :: as, seen =>
    if a.key ∈ seen then dedupKeys as seen else a :: dedupKeys as (a.key :: seen)

/-- Sorts the matches of an indictment constraint by constraint, keeping the constraints in order. -/
def sortByConstraint {kind : ScoreKind} (ms : List (Match kind)) : List (Match kind) :=
  (ms.map (·.constraint)).eraseDups.flatMap fun id =>
    Match.sort (ms.filter fun m => m.constraint = id)

/-- The indictments that the matches of some constraints come to, most penalized facts first. A
match that names a fact twice blames it once. The scores are added up without regard to the range
of words, and a sum that leaves it stops the program. -/
def indict {kind : ScoreKind} (totals : List (MatchTotal kind)) :
    Except Trap (List (Indictment kind)) := do
  let table ← (totals.flatMap (·.matches)).foldlM
    (fun table m => (dedupKeys m.indicted []).foldlM (blame m) table) ∅
  let indictments := table.values.map fun (i : Indictment kind) =>
    { i with «matches» := sortByConstraint i.matches }
  pure (indictments.mergeSort fun a b => (a.order b).isLE)

/-! ## Explaining a session -/

namespace Session

variable {kind : ScoreKind}

/-- The match that an entry of a ledger records. -/
def matchOf (s : Session kind) (c : Constraint kind) (id : TupleId) (entry : Entry kind) :
    Except Error (Match kind) := do
  let facts ← s.network.agenda.facts id
  return ⟨c.id, facts, entry.matchWeight, entry.score, ← c.indicted facts⟩

/-- The matches and the total of a constraint, if the network keeps a ledger for it. -/
def matchTotal? (s : Session kind) (node : NodeId) : Except Error (Option (MatchTotal kind)) := do
  let c ← s.graph.constraintAt node
  match s.network.ledger? node with
  | none => pure none
  | some l =>
    let ms ← (l.entries.inOrder s.hashOrder.tuples).mapM fun (id, entry) => s.matchOf c id entry
    return some ⟨c.id, l.weight, l.total, Match.sort ms⟩

/-- The matches and totals of all constraints, in the order of their declaration. -/
def collectMatchTotals (s : Session kind) : Except Error (List (MatchTotal kind)) := do
  let totals ← s.graph.constraints.mapM s.matchTotal?
  return totals.filterMap fun total => total

/-- Flushes, then breaks the score down by constraint. -/
def matchTotals : SessionAction kind (List (MatchTotal kind)) := do
  discard flush
  guarded do
    let s ← get
    (s.collectMatchTotals : Except Error _)

/-- Flushes, then breaks the score down by fact. -/
def indictments : SessionAction kind (Except Trap (List (Indictment kind))) :=
  return indict (← matchTotals)

/-- The indictment of the fact with a key. -/
def indictmentOf (key : Fact.Key) : SessionAction kind (Except Trap (Option (Indictment kind))) :=
  return (← indictments).map fun is => is.find? fun i => i.fact.key = key

/-- The score with both breakdowns. -/
def explain : SessionAction kind (Except Trap (Explanation kind)) := do
  let score ← calculateScore
  let totals ← matchTotals
  return (indict totals).map fun indictments => { score, totals, indictments }

end Session

/-! ## Reports -/

/-- A text moved to the right edge of a column. -/
def alignRight (width : Nat) (s : String) : String :=
  String.ofList (List.replicate (width - s.length) ' ') ++ s

namespace Explanation

variable {kind : ScoreKind}

/-- The breakdown of a constraint. -/
def totalFor? (e : Explanation kind) (id : ConstraintId) : Option (MatchTotal kind) :=
  e.totals.find? fun t => t.constraint = id

/-- A line of a report: a score, what it is the score of, and the number of matches. -/
def reportLine (score : Score kind) (subject : String) (count : Nat) : String :=
  "  " ++ alignRight 12 score.text ++ "  " ++ subject ++ " (" ++ toString count ++ " matches)\n"

/-- The score, the constraints with matches from the most penalized on, and up to `limit` facts. -/
def summary (e : Explanation kind) (limit : Nat) : String :=
  let head := "Score: " ++ e.score.text ++ (if e.score.isFeasible then "" else " (infeasible)") ++ "\n"
  let matched := (e.totals.filter fun t => !t.matches.isEmpty).mergeSort fun a b =>
    (compare a.total b.total).isLE
  if matched.isEmpty then head ++ "No constraint matches.\n"
  else
    let constraints := matched.map fun t => reportLine t.total t.constraint.text t.matches.length
    let facts := (e.indictments.take limit).map fun i =>
      reportLine i.score i.fact.describe i.matches.length
    head ++ "Constraint matches:\n" ++ String.join constraints
      ++ (if facts.isEmpty then "" else "Indicted facts:\n" ++ String.join facts)

/-- The number of facts that a report lists unless told otherwise. -/
def defaultLimit : Nat := 5

end Explanation

end ConstraintStreams
