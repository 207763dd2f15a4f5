import ConstraintStreams.Network.Basic
import ConstraintStreams.Proofs.Action
import ConstraintStreams.Proofs.Graph.Routes

/-!
# What lasts through a flush

A flush does a few things over and over: nodes act on signals and settle their outputs, queues are
taken, and tuples settle or are let go. A property of networks that lasts through each of these lasts
through the whole flush, whichever way that ends.
-/

namespace ConstraintStreams

open ConstraintStreams.Action (Ends Keeps KeepsUnless)

namespace Network

variable {kind : ScoreKind} {g : Graph kind} {F : Error → Network kind → Prop}
  {I : Network kind → Prop}

/-! ## Looking up a memory -/

theorem memoryOf_ends (p : NodeId) (net : Network kind) :
    Ends (memoryOf p) net (fun m net' => net' = net ∧ net.memories.get? p = some m) (· = net) := by
  unfold memoryOf
  rw [Action.ends_bind, Action.ends_get]
  split
  · next hm => exact ⟨rfl, hm⟩
  · exact rfl

theorem keeps_memoryOf (p : NodeId) : Keeps I (memoryOf p) :=
  fun net h => (memoryOf_ends p net).mono (fun _ _ ⟨hsame, _⟩ => hsame ▸ h) fun _ hsame => hsame ▸ h

/-! ## Deliveries -/

/-- The property lasts when a node acts on a signal, unless that fails as `F` says, and it does not depend
on the count of deliveries. -/
structure Conserves (g : Graph kind) (F : Error → Network kind → Prop) (I : Network kind → Prop) :
    Prop where
  count : ∀ {net} operations, I net → I { net with operations }
  act : ∀ {p n}, g.nodes.get? p = some n → ∀ side id signal, KeepsUnless F I (act p n side id signal)

namespace Conserves

variable (h : Conserves g F I)

include h

theorem countOperation : Keeps I (countOperation : NetworkAction kind Unit) :=
  .bind (.modify fun _ hnet => h.count _ hnet) fun _ => .get_bind fun _ _ => .lift _

theorem deliver (depth : Nat) (signal : Signal) (id : TupleId) (l : Link) :
    KeepsUnless F I (deliver g depth signal id l) := by
  induction depth generalizing signal l with
  | zero => exact .of_keeps (.throw _)
  | succ depth ih =>
    unfold Network.deliver
    refine .bind (.of_keeps h.countOperation) fun _ => .lift_bind fun n hn => ?_
    refine .bind (h.act (Graph.node_eq_ok.1 hn) _ _ _) fun next => ?_
    -- Only a filter passes the signal on.
    split
    · exact .forM (ih _) _
    · exact .of_keeps (.pure _)

theorem forward (p : NodeId) (signal : Signal) (id : TupleId) :
    KeepsUnless F I (forward g p signal id) :=
  .lift_bind fun _ _ => .forM (h.deliver _ _ _) _

end Conserves

/-! ## Turns -/

/-- The property also lasts through what a node does in its turn, beside telling its children. -/
structure Withstands (g : Graph kind) (F : Error → Network kind → Prop) (I : Network kind → Prop) : Prop
    extends Conserves g F I where
  refresh : ∀ p, KeepsUnless F I (refresh g p)
  settle : ∀ id, Keeps I (onAgenda (Agenda.setStage id .settled))
  release : ∀ id, Keeps I (onAgenda (Agenda.release id))
  takeQueue : ∀ p, Keeps I (onAgenda (Agenda.takeQueue p))

namespace Withstands

variable (h : Withstands g F I)

include h

theorem process (p : NodeId) (id : TupleId) : KeepsUnless F I (process g p id) := by
  have forward (signal : Signal) := h.toConserves.forward p signal id
  refine .get_bind fun _ _ => .lift_bind fun stage _ => ?_
  cases stage with
  | creating => exact .bind (.of_keeps (h.settle id)) fun _ => forward .insert
  | updating => exact .bind (.of_keeps (h.settle id)) fun _ => forward .update
  | dying => exact .bind (forward .retract) fun _ => .of_keeps (h.release id)
  | aborting => exact .of_keeps (h.release id)
  | settled => exact .of_keeps (.pure _)
  | dead => exact .of_keeps (.pure _)

theorem drain (p : NodeId) : KeepsUnless F I (drain g p) :=
  .bind (h.refresh p) fun _ => .bind (.of_keeps (h.takeQueue p)) fun _ =>
    .bind (.forM (h.process p) _) fun _ => .of_keeps (.pure _)

theorem drainAll (nodes : List NodeId) : KeepsUnless F I (drainAll g nodes) := by
  induction nodes with
  | nil => exact .of_keeps (.pure _)
  | cons p rest ih => exact .bind (h.drain p) fun _ => .bind ih fun _ => .of_keeps (.pure _)

theorem flush : KeepsUnless F I (flush g) :=
  .bind (.of_keeps (.modify fun _ hnet => h.count _ hnet)) fun _ => h.drainAll _

end Withstands

end Network

end ConstraintStreams
