import ConstraintStreams.Proofs.Network.Books

/-!
# Every account balances

At every constraint of a network there is a ledger that balances. Work on the network keeps it so,
whichever way it ends, unless a total left the range of scores; that is an error that poisons. All the
same, a ledger that does not balance is one that no total could bring into balance.
-/

namespace ConstraintStreams

open ConstraintStreams.Action (Keeps KeepsUnless)

namespace Network

variable {kind : ScoreKind} {g : Graph kind} {net : Network kind}

/-- Every constraint has a ledger that balances. -/
structure Accounts (g : Graph kind) (net : Network kind) : Prop where
  balanced : ∀ {p n c}, g.nodes.get? p = some n → n.operator = .constraint c →
    ∃ l, net.ledger? p = some l ∧ l.Balanced c

/-- The ledger balances, or the exact sum of its entries is out of range. -/
def Sound (c : Constraint kind) (l : Ledger kind) : Prop := Ledger.Exceeds l.entries ∨ l.Balanced c

/-- Accounts are books of ledgers that balance. -/
theorem accounts_eq (g : Graph kind) : Accounts g = Books Ledger.Balanced g :=
  funext fun _ => propext ⟨fun h => ⟨h.balanced⟩, fun h => ⟨h.ledger⟩⟩

theorem Accounts.keeps_onAgenda {α : Type} (x : Action Agenda α) :
    Keeps (Accounts g) (onAgenda x : NetworkAction kind α) :=
  accounts_eq g ▸ Books.keeps_onAgenda x

theorem Accounts.sound (h : Accounts g net) : Books Sound g net :=
  ⟨fun hn hop => (h.balanced hn hop).imp fun _ hl => ⟨hl.1, .inr hl.2⟩⟩

/-- A flush that fails and leaves a ledger that does not balance has given that ledger up. -/
theorem keepsAccounts_flush (g : Graph kind) :
    KeepsUnless (fun e net => e.poisons = true ∧ Books Sound g net) (Accounts g) (flush g) := by
  rw [accounts_eq]
  intro net h
  have hflush := (withstands_books (F := fun e c => Ledger.GivenUp c e)
    (fun c posting _ => Ledger.keepsBalanced_post c posting) g).flush net h
  cases hrun : flush g net with
  | ok _ net' => exact Action.endsUnless_of_ok hrun (hflush.of_ok hrun)
  | error e net' =>
    have hfailed : FailedBooks (fun e c => Ledger.GivenUp c e) Ledger.Balanced g e net' :=
      (hflush.of_error hrun).elim id fun h' => h'.imp fun _ _ => .inr
    refine Action.endsUnless_of_error hrun ?_
    by_cases hp : e.poisons = true
    · exact .inl ⟨hp, hfailed.imp fun _ _ hl => hl.imp_left And.right⟩
    · refine .inr (hfailed.imp fun _ _ hl => hl.resolve_left ?_)
      rintro ⟨rfl, -⟩
      exact hp rfl

theorem accounts_reset (g : Graph kind) (net : Network kind) : Accounts g (reset g net) :=
  accounts_eq g ▸ books_reset (fun c => .new c.weight) g net

theorem accounts_new (g : Graph kind) (limits : Limits) (order : TupleStore → HashOrder) :
    Accounts g (new g limits order) := accounts_reset g _

/-- Whether or not another weight can be put in force, the accounts balance. -/
theorem keepsAccounts_setWeight (p : NodeId) (weight : Score kind) :
    Keeps (Accounts g) (setWeight g p weight) := by
  rw [accounts_eq]
  refine keepsBooks_setWeight (fun c l order _ => ?_) p
  exact (Ledger.setWeight_ends c weight order l).mono (fun _ _ h => h.balanced) fun _ => id

theorem keepsSound_setWeight (p : NodeId) (weight : Score kind) :
    Keeps (Books Sound g) (setWeight g p weight) :=
  keepsBooks_setWeight (fun c l order _ => (Ledger.setWeight_ends c weight order l).mono
    (fun _ _ h => .inr h.balanced) fun _ => id) p

end Network

end ConstraintStreams
