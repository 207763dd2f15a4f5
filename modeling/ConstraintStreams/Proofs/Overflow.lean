import ConstraintStreams.Proofs.Action

/-!
# Overflow and nothing else

Where the functions that were given have answered, checked arithmetic is all that can go wrong.
`Action.OverflowsIff` says when it does.
-/

namespace ConstraintStreams

namespace Action

variable {σ τ α β : Type} {P Q : Prop} {x : Action σ α} {f : α → Action σ β} {s s' : σ} {a : α}

/-- Run from `s`, the action fails with an overflow if `P` holds, and succeeds otherwise. -/
def OverflowsIff (P : Prop) (x : Action σ α) (s : σ) : Prop :=
  match x s with
  | .ok _ _ => ¬ P
  | .error e _ => P ∧ ∃ site, e = .overflow site

namespace OverflowsIff

theorem of_ok (h : OverflowsIff P x s) (hx : x s = .ok a s') : ¬ P := by
  unfold OverflowsIff at h
  rwa [hx] at h

theorem of_error {e : Error} (h : OverflowsIff P x s) (hx : x s = .error e s') :
    P ∧ ∃ site, e = .overflow site := by
  unfold OverflowsIff at h
  rwa [hx] at h

theorem ok (hx : x s = .ok a s') (hP : ¬ P) : OverflowsIff P x s := by
  unfold OverflowsIff
  rwa [hx]

theorem error {site : Overflow} (hx : x s = .error (.overflow site) s') (hP : P) :
    OverflowsIff P x s := by
  unfold OverflowsIff
  rw [hx]
  exact ⟨hP, site, rfl⟩

theorem congr (h : OverflowsIff P x s) (hPQ : P ↔ Q) : OverflowsIff Q x s :=
  propext hPQ ▸ h

theorem lift_ok {r : Except Error α} (hr : r = .ok a) (hP : ¬ P) :
    OverflowsIff P (liftM r : Action σ α) s := by
  subst hr
  exact hP

theorem lift_error {r : Except Error α} {site : Overflow} (hr : r = .error (.overflow site)) (hP : P) :
    OverflowsIff P (liftM r : Action σ α) s := by
  subst hr
  exact ⟨hP, site, rfl⟩

theorem map (h : OverflowsIff P x s) (f : α → β) : OverflowsIff P (f <$> x) s := by
  unfold OverflowsIff at h ⊢
  cases hx : x s with
  | ok a s' =>
    rw [hx] at h
    rwa [map_ok hx]
  | error e s' =>
    rw [hx] at h
    rwa [map_error hx]

theorem bind_of_ok (hx : x s = .ok a s') (hf : OverflowsIff P (f a) s') : OverflowsIff P (x >>= f) s := by
  unfold OverflowsIff at hf ⊢
  rwa [bind_ok hx]

/-- Where two parts can overflow, either is enough. -/
theorem bind (hx : OverflowsIff P x s)
    (hf : ∀ a s', x s = .ok a s' → OverflowsIff Q (f a) s') : OverflowsIff (P ∨ Q) (x >>= f) s := by
  cases hxs : x s with
  | ok a s' =>
    have hP : P ∨ Q ↔ Q := or_iff_right (hx.of_ok hxs)
    exact bind_of_ok hxs ((hf a s' hxs).congr hP.symm)
  | error e s' =>
    obtain ⟨hP, site, rfl⟩ := hx.of_error hxs
    exact error (bind_error hxs) (.inl hP)

/-- What is done afterwards cannot fail. -/
theorem bind_done (hx : OverflowsIff P x s)
    (hf : ∀ a s', x s = .ok a s' → ∃ b t, f a s' = .ok b t) : OverflowsIff P (x >>= f) s := by
  refine (hx.bind (Q := False) fun a s' hxs => ?_).congr (iff_of_eq (or_false P))
  obtain ⟨b, t, hft⟩ := hf a s' hxs
  exact ok hft id

end OverflowsIff

end Action

end ConstraintStreams
