import ConstraintStreams.Proofs.Network.Conserving
import ConstraintStreams.Proofs.Tuple.Continuity

/-!
# Operators only ask

Whatever an operator does to the agenda, it does by making, changing and withdrawing tuples there. So a
property of agendas that outlasts those lasts through all work of all operators, whether or not the work
fails; nothing has to be known of their memories for that.
-/

namespace ConstraintStreams

open ConstraintStreams.Action (Keeps)

namespace Work

variable {μ ν α : Type} {I : Agenda → Prop} {J : Workbench μ → Prop}

/-- The agenda on a workbench has the property. -/
def On (I : Agenda → Prop) (w : Workbench μ) : Prop := I w.agenda

theorem keeps_onAgenda {x : Action Agenda α} (hx : Keeps I x) :
    Keeps (On I) (onAgenda x : Work μ α) := fun w h => Action.ends_within.2 (hx w.agenda h)

theorem keeps_onMemory (x : Action μ α) : Keeps (On I) (onMemory x : Work μ α) := by
  intro w h
  refine Action.ends_within.2 ?_
  unfold Action.Ends
  split
  · exact h
  · exact h

theorem keeps_memory : Keeps J (memory : Work μ μ) := .get_bind fun _ _ => .pure _

theorem keeps_inHashOrder {κ : Type} {order : HashOrder → Arrangement κ} {items : List κ} :
    Keeps J (inHashOrder order items : Work μ (List κ)) := .get_bind fun _ _ => .pure _

/-- What is handed out is what is held. -/
theorem gives_inHashOrder {κ : Type} {order : HashOrder → Arrangement κ} {items : List κ} :
    Action.Gives J (·.Perm items) (inHashOrder order items : Work μ (List κ)) :=
  fun w h => ⟨h, (order w.agenda.hashOrder).perm items⟩

theorem keeps_setMemory (m : μ) : Keeps (On I) (setMemory m : Work μ Unit) := .modify fun _ h => h

theorem keeps_modifyMemory (f : μ → μ) : Keeps (On I) (modifyMemory f : Work μ Unit) :=
  .modify fun _ h => h

theorem keeps_facts (id : TupleId) : Keeps J (facts id : Work μ Facts) :=
  .get_bind fun _ _ => .lift _

theorem keeps_sources (id : TupleId) : Keeps J (sources id : Work μ Sources) :=
  .get_bind fun _ _ => .lift _

section Asking

variable (hI : Agenda.Outlasts I)

include hI

theorem keeps_create (node : NodeId) (facts : Facts) (sources : Sources) :
    Keeps (On I) (onAgenda (Agenda.create node facts sources) : Work μ TupleId) :=
  keeps_onAgenda (hI.create node facts sources)

theorem keeps_number (facts : Facts) :
    Keeps (On I) (onAgenda (Agenda.number facts) : Work μ Facts) :=
  keeps_onAgenda fun g h => hI.number g _ h

end Asking

section Altering

variable (hI : Agenda.Alters I)

include hI

theorem keeps_retract (id : TupleId) : Keeps (On I) (onAgenda (Agenda.retract id) : Work μ Unit) :=
  keeps_onAgenda (hI.retract id)

theorem keeps_refreshTuple (id : TupleId) (facts : Facts) :
    Keeps (On I) (refreshTuple id facts : Work μ Unit) :=
  .bind (keeps_onAgenda (hI.setFacts id facts)) fun _ => keeps_onAgenda (hI.update id)

theorem keeps_refreshIfChanged (id : TupleId) (facts : Facts) :
    Keeps (On I) (refreshIfChanged id facts : Work μ Unit) := by
  refine .bind (keeps_facts id) fun old => ?_
  split
  · exact keeps_refreshTuple hI id facts
  · exact .pure _

end Altering

end Work

open Work

variable {kind : ScoreKind} {I : Agenda → Prop}

/-! ## One operator after the other -/

theorem FilterMemory.keeps_accept (predicate : Facts → Except Error Bool) (signal : Signal)
    (input : TupleId) : Keeps (On I) (accept predicate signal input) := by
  unfold accept
  refine .bind keeps_memory fun m => ?_
  cases signal with
  | insert =>
    refine .bind (keeps_facts input) fun facts => .bind (.lift _) fun passes => ?_
    split
    · exact .bind (keeps_setMemory _) fun _ => .pure _
    · exact .pure _
  | update =>
    refine .bind (keeps_facts input) fun facts => .bind (.lift _) fun passes => ?_
    split
    · exact .pure _
    · exact .bind (keeps_setMemory _) fun _ => .pure _
    · exact .bind (keeps_setMemory _) fun _ => .pure _
    · exact .pure _
  | retract =>
    dsimp only
    split
    · exact .bind (keeps_setMemory _) fun _ => .pure _
    · exact .pure _

theorem Network.keeps_signalConstraint (c : Constraint kind) (id : TupleId) (signal : Signal) :
    Keeps (On I) (signalConstraint c id signal) := by
  cases signal with
  | insert => exact .bind (keeps_facts id) fun _ => keeps_onMemory _
  | update => exact .bind (keeps_facts id) fun _ => keeps_onMemory _
  | retract => exact keeps_onMemory _

theorem GroupMemory.keeps_setGroup (id : GroupId) (group : Group) :
    Keeps (On I) (setGroup id group) := keeps_modifyMemory _

theorem GroupMemory.keeps_retract (input : TupleId) : Keeps (On I) (retract input) := by
  refine .bind keeps_memory fun m => ?_
  split
  · exact .throw _
  · refine .bind (keeps_setMemory _) fun _ => ?_
    split
    · exact .throw _
    · exact .bind (.mapMOption (fun _ => .lift _) _) fun _ => .bind (.lift _) fun _ =>
        .bind (keeps_setGroup _ _) fun _ => keeps_modifyMemory _

theorem JoinMemory.keeps_joinedFacts? {J : Workbench JoinMemory → Prop} (joiners : List Joiner)
    (pair : TupleId × TupleId) : Keeps J (joinedFacts? joiners pair) := by
  refine .bind (keeps_facts _) fun l => .bind (keeps_facts _) fun r => .bind (.lift _) fun accepts => ?_
  split
  · exact .pure _
  · exact .pure _

theorem JoinMemory.keeps_outputsByPartner {J : Workbench JoinMemory → Prop} (side : Side)
    (outputs : List TupleId) : Keeps J (outputsByPartner side outputs) := by
  refine .foldlM (fun found output => .bind (keeps_sources output) fun sources => ?_) _ _
  split
  · exact .pure _
  · exact .pure _

theorem SemijoinMemory.keeps_accepted {J : Workbench SemijoinMemory → Prop}
    {test : TupleId → Work SemijoinMemory Bool} (htest : ∀ candidate, Keeps J (test candidate))
    (candidates : List TupleId) : Keeps J (accepted test candidates) := by
  induction candidates with
  | nil => exact .pure _
  | cons candidate rest ih =>
    refine .bind (htest candidate) fun accepts => ?_
    split
    · exact .bind ih fun _ => .pure _
    · exact ih

theorem SemijoinMemory.keeps_findMatches (joiners : List Joiner) (left : TupleId) (key : JoinKey) :
    Keeps (On I) (findMatches joiners left key) :=
  .bind (keeps_facts left) fun _ => .bind keeps_memory fun _ => .bind keeps_inHashOrder fun _ =>
    .bind (keeps_accepted (fun right => .bind (keeps_facts right) fun _ => .lift _) _) fun _ =>
      .bind (keeps_modifyMemory _) fun _ => .pure _

theorem SemijoinMemory.keeps_insertLeft (joiners : List Joiner) (left : TupleId) :
    Keeps (On I) (insertLeft joiners left) :=
  .bind (keeps_facts left) fun _ => .bind (.lift _) fun _ => .bind (keeps_findMatches _ _ _) fun _ =>
    keeps_modifyMemory _

theorem SemijoinMemory.keeps_insertRight (joiners : List Joiner) (right : TupleId) :
    Keeps (On I) (insertRight joiners right) :=
  .bind (keeps_facts right) fun _ => .bind (.lift _) fun _ => .bind keeps_memory fun _ =>
    .bind keeps_inHashOrder fun _ =>
      .bind (keeps_accepted (fun left => .bind (keeps_facts left) fun _ => .lift _) _) fun _ =>
        keeps_modifyMemory _

theorem SemijoinMemory.keeps_retractRight (right : TupleId) : Keeps (On I) (retractRight right) := by
  refine .bind keeps_memory fun m => ?_
  split
  · exact .throw _
  · exact keeps_setMemory _

section Altering

variable (hI : Agenda.Alters I)

include hI

theorem SemijoinMemory.keeps_updateLeft (joiners : List Joiner) (left : TupleId) :
    Keeps (On I) (updateLeft joiners left) := by
  have renewLeft (key : JoinKey) (counter : Counter) :
      Keeps (On I) (renewLeft joiners left key counter) := by
    refine .bind (keeps_modifyMemory _) fun _ => .bind (keeps_findMatches joiners left key) fun _ =>
      .bind (keeps_modifyMemory _) fun _ => ?_
    split
    · exact .bind (keeps_facts left) fun _ => .bind (keeps_refreshTuple hI _ _) fun _ =>
        keeps_modifyMemory _
    · exact keeps_modifyMemory _
  refine .bind (keeps_facts left) fun _ => .bind (.lift _) fun key => .bind keeps_memory fun m =>
    .bind (keeps_setMemory _) fun _ => ?_
  split
  · exact .throw _
  · split
    · split
      · exact .bind (keeps_modifyMemory _) fun _ => .throw _
      · exact .throw _
    · split
      · exact .bind (keeps_modifyMemory _) fun _ => renewLeft _ _
      · exact renewLeft _ _

theorem SemijoinMemory.keeps_retractLeft (left : TupleId) : Keeps (On I) (retractLeft left) := by
  refine .bind keeps_memory fun m => ?_
  split
  · exact .throw _
  · refine .bind (keeps_setMemory _) fun _ => ?_
    split
    · exact .pure _
    · refine .bind (keeps_setMemory _) fun _ => ?_
      split
      · exact Work.keeps_retract hI _
      · exact .pure _

theorem Network.keeps_signalSemijoin (joiners : List Joiner) (id : TupleId) (side : Side)
    (signal : Signal) : Keeps (On I) (signalSemijoin joiners id side signal) := by
  have left : Keeps (On I) (signalSemijoin joiners id .left signal) := by
    cases signal with
    | insert => exact SemijoinMemory.keeps_insertLeft joiners id
    | update => exact SemijoinMemory.keeps_updateLeft hI joiners id
    | retract => exact SemijoinMemory.keeps_retractLeft hI id
  cases side with
  | only => cases signal <;> exact left
  | left => exact left
  | right =>
    cases signal with
    | insert => exact SemijoinMemory.keeps_insertRight joiners id
    | update =>
      exact .bind (SemijoinMemory.keeps_retractRight id) fun _ =>
        SemijoinMemory.keeps_insertRight joiners id
    | retract => exact SemijoinMemory.keeps_retractRight id

end Altering

section Asking

variable (hI : Agenda.Outlasts I)

include hI

theorem Network.keeps_signalConcat (node : NodeId) (side : Side) (id : TupleId) (signal : Signal) :
    Keeps (On I) (signalConcat node side id signal) := by
  cases signal with
  | insert =>
    exact .bind (keeps_facts id) fun _ => .bind (keeps_create hI _ _ _) fun _ => keeps_modifyMemory _
  | update =>
    refine .bind keeps_memory fun m => ?_
    split
    · exact .throw _
    · exact .bind (keeps_facts id) fun _ => keeps_refreshTuple hI.toAlters _ _
  | retract =>
    refine .bind keeps_memory fun m => ?_
    split
    · exact .throw _
    · exact .bind (keeps_setMemory _) fun _ => keeps_retract hI.toAlters _

theorem MapMemory.keeps_image (arity : Nat) (mapper : Facts → Except Error Facts) (input : TupleId) :
    Keeps (On I) (image arity mapper input) := by
  refine .bind (keeps_facts input) fun _ => .bind (.lift _) fun facts => ?_
  split
  · exact .throw _
  · exact keeps_number hI facts

theorem Network.keeps_signalMap (node : NodeId) (arity : Nat) (mapper : Facts → Except Error Facts)
    (id : TupleId) (signal : Signal) : Keeps (On I) (signalMap node arity mapper id signal) := by
  cases signal with
  | insert =>
    exact .bind (MapMemory.keeps_image hI arity mapper id) fun _ =>
      .bind (keeps_create hI _ _ _) fun _ => keeps_modifyMemory _
  | update =>
    refine .bind keeps_memory fun m => ?_
    split
    · exact .throw _
    · exact .bind (MapMemory.keeps_image hI arity mapper id) fun _ => keeps_refreshIfChanged hI.toAlters _ _
  | retract =>
    refine .bind keeps_memory fun m => ?_
    split
    · exact .throw _
    · exact .bind (keeps_setMemory _) fun _ => keeps_retract hI.toAlters _

theorem FlattenMemory.keeps_insert (node : NodeId) (items : Fact → Except Error (List Fact))
    (input : TupleId) : Keeps (On I) (insert node items input) :=
  .bind (keeps_facts input) fun _ => .bind (.lift _) fun _ => .bind (.lift _) fun _ =>
    .bind (keeps_number hI _) fun _ => .bind (.mapM (fun _ => keeps_create hI _ _ _) _) fun _ =>
      keeps_modifyMemory _

theorem FlattenMemory.keeps_retract (input : TupleId) : Keeps (On I) (retract input) := by
  refine .bind keeps_memory fun m => ?_
  split
  · exact .throw _
  · exact .bind (keeps_setMemory _) fun _ => .forM (fun _ => Work.keeps_retract hI.toAlters _) _

theorem Network.keeps_signalFlatten (node : NodeId) (items : Fact → Except Error (List Fact))
    (id : TupleId) (signal : Signal) : Keeps (On I) (signalFlatten node items id signal) := by
  cases signal with
  | insert => exact FlattenMemory.keeps_insert hI node items id
  | update =>
    exact .bind (FlattenMemory.keeps_retract hI id) fun _ => FlattenMemory.keeps_insert hI node items id
  | retract => exact FlattenMemory.keeps_retract hI id

theorem DistinctMemory.keeps_insert (node : NodeId) (input : TupleId) :
    Keeps (On I) (insert node input) := by
  refine .bind (keeps_facts input) fun facts => .bind keeps_memory fun m => ?_
  split
  · exact .bind (keeps_modifyMemory _) fun _ => keeps_modifyMemory _
  · exact .bind (keeps_create hI _ _ _) fun _ => .bind (keeps_modifyMemory _) fun _ =>
      keeps_modifyMemory _

theorem DistinctMemory.keeps_retract (input : TupleId) : Keeps (On I) (retract input) := by
  refine .bind keeps_memory fun m => ?_
  split
  · exact .throw _
  · refine .bind (keeps_setMemory _) fun _ => ?_
    split
    · exact .throw _
    · refine .bind (.lift _) fun size => ?_
      split
      · exact .bind (keeps_setMemory _) fun _ => Work.keeps_retract hI.toAlters _
      · exact keeps_setMemory _

theorem Network.keeps_signalDistinct (node : NodeId) (id : TupleId) (signal : Signal) :
    Keeps (On I) (signalDistinct node id signal) := by
  cases signal with
  | insert => exact DistinctMemory.keeps_insert hI node id
  | update =>
    refine .bind keeps_memory fun m => ?_
    split
    · exact .throw _
    · refine .bind (keeps_facts id) fun facts => ?_
      split
      · split
        · exact .throw _
        · exact keeps_refreshIfChanged hI.toAlters _ _
      · exact .bind (DistinctMemory.keeps_retract hI id) fun _ => DistinctMemory.keeps_insert hI node id
  | retract => exact DistinctMemory.keeps_retract hI id

theorem GroupMemory.keeps_insert (key : Option (Facts → Except Error Fact))
    (collector : Option Collector) (input : TupleId) :
    Keeps (On I) (insert key collector input) := by
  have keyOf (facts : Facts) : Keeps (On I) (keyOf key facts) := by
    cases key with
    | none => exact .pure _
    | some f => exact .bind (.lift _) fun _ => .bind (keeps_number hI _) fun _ => .pure _
  have collect (facts : Facts) (accumulator : Option Accumulator) :
      Keeps (On I) (collect facts accumulator) := by
    cases accumulator with
    | none => exact .pure _
    | some accumulator =>
      exact .get_bind fun w hw => .bind (.lift _) fun taken =>
        .bind (.modify fun _ _ => hI.number w.agenda taken.2.2 hw) fun _ => .pure _
  exact .bind (keeps_facts input) fun _ => .bind (keyOf _) fun _ => .bind keeps_memory fun _ =>
    .bind (keeps_setGroup _ _) fun _ => .bind (collect _ _) fun _ => .bind (keeps_setGroup _ _) fun _ =>
      keeps_modifyMemory _

theorem Network.keeps_signalGroup (key : Option (Facts → Except Error Fact))
    (collector : Option Collector) (id : TupleId) (signal : Signal) :
    Keeps (On I) (signalGroup key collector id signal) := by
  cases signal with
  | insert => exact GroupMemory.keeps_insert hI key collector id
  | update =>
    exact .bind (GroupMemory.keeps_retract id) fun _ => GroupMemory.keeps_insert hI key collector id
  | retract => exact GroupMemory.keeps_retract id

theorem GroupMemory.keeps_refresh (node : NodeId) : Keeps (On I) (refresh node) := by
  have settle (id : GroupId) : Keeps (On I) (settle node id) := by
    refine .bind keeps_memory fun m => ?_
    split
    · exact .pure _
    · split
      · split
        · exact .bind (keeps_setGroup _ _) fun _ => .bind (Work.keeps_retract hI.toAlters _) fun _ =>
            keeps_modifyMemory _
        · exact keeps_modifyMemory _
      · split
        · exact .bind (keeps_number hI _) fun _ => .bind (keeps_create hI _ _ _) fun _ =>
            keeps_setGroup _ _
        · exact .bind (keeps_number hI _) fun _ => keeps_refreshIfChanged hI.toAlters _ _
        · exact .bind (keeps_setGroup _ _) fun _ => Work.keeps_retract hI.toAlters _
        · exact .pure _
  exact .bind keeps_memory fun _ => .bind keeps_inHashOrder fun _ =>
    .bind (keeps_modifyMemory _) fun _ => .forM settle _

theorem JoinMemory.keeps_createPair (node : NodeId) (pair : TupleId × TupleId) (facts : Facts) :
    Keeps (On I) (createPair node pair facts) :=
  .bind (keeps_create hI _ _ _) fun _ => keeps_modifyMemory _

theorem JoinMemory.keeps_retractOutput (side : Side) (output : TupleId) :
    Keeps (On I) (retractOutput side output) := by
  refine .bind (keeps_sources output) fun sources => ?_
  split
  · exact .throw _
  · exact .bind (keeps_modifyMemory _) fun _ => Work.keeps_retract hI.toAlters _

theorem JoinMemory.keeps_insert (node : NodeId) (joiners : List Joiner) (side : Side)
    (input : TupleId) : Keeps (On I) (insert node joiners side input) := by
  refine .bind (keeps_facts input) fun _ => .bind (.lift _) fun key => .bind keeps_memory fun m =>
    .bind keeps_inHashOrder fun _ => .bind (keeps_modifyMemory _) fun _ => .forM (fun candidate => ?_) _
  refine .bind (keeps_joinedFacts? joiners _) fun facts? => ?_
  split
  · exact keeps_createPair hI _ _ _
  · exact .pure _

theorem JoinMemory.keeps_retract (side : Side) (input : TupleId) :
    Keeps (On I) (retract side input) := by
  refine .bind keeps_memory fun m => ?_
  split
  · exact .throw _
  · exact .bind keeps_inHashOrder fun _ => .bind (keeps_setMemory _) fun _ =>
      .forM (keeps_retractOutput hI side) _

theorem JoinMemory.keeps_update (node : NodeId) (joiners : List Joiner) (side : Side)
    (input : TupleId) : Keeps (On I) (update node joiners side input) := by
  have dropOutput (output : TupleId) : Keeps (On I) (dropOutput side input output) :=
    .bind (keeps_modifyMemory _) fun _ => keeps_retractOutput hI side output
  have updatePair (existing : Table TupleId TupleId) (candidate : TupleId) :
      Keeps (On I) (updatePair node joiners side input existing candidate) := by
    refine .bind (keeps_joinedFacts? joiners _) fun facts? => ?_
    split
    · exact keeps_refreshTuple hI.toAlters _ _
    · exact keeps_createPair hI _ _ _
    · exact dropOutput _
    · exact .pure _
  refine .bind (keeps_facts input) fun _ => .bind (.lift _) fun key => .bind keeps_memory fun m => ?_
  split
  · exact .throw _
  · split
    · exact .bind (keeps_retract hI side input) fun _ => keeps_insert hI node joiners side input
    · exact .bind keeps_inHashOrder fun _ => .bind (keeps_outputsByPartner side _) fun existing =>
        .bind keeps_inHashOrder fun _ => .bind (.forM (updatePair existing) _) fun _ =>
          .bind keeps_inHashOrder fun _ => .forM dropOutput _

theorem Network.keeps_signalJoin (node : NodeId) (joiners : List Joiner) (side : Side) (id : TupleId)
    (signal : Signal) : Keeps (On I) (signalJoin node joiners side id signal) := by
  cases signal with
  | insert => exact JoinMemory.keeps_insert hI node joiners side id
  | update => exact JoinMemory.keeps_update hI node joiners side id
  | retract => exact JoinMemory.keeps_retract hI side id

theorem SemijoinMemory.keeps_refresh (node : NodeId) (expected : Bool) :
    Keeps (On I) (refresh node expected) := by
  have settle (left : TupleId) : Keeps (On I) (settle node expected left) := by
    refine .bind keeps_memory fun m => ?_
    split
    · exact .pure _
    · dsimp only
      split
      · exact .bind (keeps_facts left) fun _ => .bind (keeps_create hI _ _ _) fun _ =>
          keeps_modifyMemory _
      · exact .bind (keeps_modifyMemory _) fun _ => Work.keeps_retract hI.toAlters _
      · exact .pure _
  exact .bind keeps_memory fun _ => .bind keeps_inHashOrder fun _ =>
    .bind (keeps_modifyMemory _) fun _ => .forM settle _

end Asking

/-! ## Whatever a node does -/

namespace Network

/-- The agenda of the network has the property. -/
def On (I : Agenda → Prop) (net : Network kind) : Prop := I net.agenda

theorem keeps_onAgenda {α : Type} {x : Action Agenda α} (hx : Keeps I x) :
    Keeps (On I) (onAgenda x : NetworkAction kind α) :=
  fun net h => Action.ends_within.2 (hx net.agenda h)

theorem keeps_onMemory {μ α : Type} (node : NodeId) (m : μ) (wrap : μ → NodeMemory kind)
    {x : Work μ α} (hx : Keeps (Work.On I) x) : Keeps (On I) (onMemory node m wrap x) :=
  fun net h => Action.ends_within.2 (hx ⟨m, net.agenda⟩ h)

variable (hI : Agenda.Outlasts I)

include hI

theorem keeps_act (node : NodeId) (n : Node kind) (side : Side) (id : TupleId) (signal : Signal) :
    Keeps (On I) (act node n side id signal) := by
  unfold act
  refine .bind (keeps_memoryOf node) fun m => ?_
  split
  · exact keeps_onMemory _ _ _ (FilterMemory.keeps_accept _ _ _)
  · exact .bind (keeps_onMemory _ _ _ (keeps_signalJoin hI _ _ _ _ _)) fun _ => .pure _
  · exact .bind (keeps_onMemory _ _ _ (keeps_signalSemijoin hI.toAlters _ _ _ _)) fun _ => .pure _
  · exact .bind (keeps_onMemory _ _ _ (keeps_signalGroup hI _ _ _ _)) fun _ => .pure _
  · exact .bind (keeps_onMemory _ _ _ (keeps_signalMap hI _ _ _ _ _)) fun _ => .pure _
  · exact .bind (keeps_onMemory _ _ _ (keeps_signalFlatten hI _ _ _ _)) fun _ => .pure _
  · exact .bind (keeps_onMemory _ _ _ (keeps_signalDistinct hI _ _ _)) fun _ => .pure _
  · exact .bind (keeps_onMemory _ _ _ (keeps_signalConcat hI _ _ _ _)) fun _ => .pure _
  · exact .bind (keeps_onMemory _ _ _ (keeps_signalConstraint _ _ _)) fun _ => .pure _
  · exact .throw _

theorem conserves (g : Graph kind) : Conserves g (fun _ _ => False) (On I : Network kind → Prop) where
  count _ h := h
  act _ _ _ _ := .of_keeps (keeps_act hI _ _ _ _ _)

theorem keeps_forward (g : Graph kind) (node : NodeId) (signal : Signal) (id : TupleId) :
    Keeps (On I) (forward g node signal id) :=
  ((conserves hI g).forward node signal id).keeps fun _ _ => False.elim

theorem keeps_refresh (g : Graph kind) (node : NodeId) : Keeps (On I) (refresh g node) := by
  unfold refresh
  refine .bind (.lift _) fun n => .get_bind fun net _ => ?_
  split
  · exact keeps_onMemory _ _ _ (GroupMemory.keeps_refresh hI node)
  · exact keeps_onMemory _ _ _ (SemijoinMemory.keeps_refresh hI node _)
  · exact .pure _

end Network

end ConstraintStreams
