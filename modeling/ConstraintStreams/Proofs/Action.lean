import ConstraintStreams.Operator.Workbench

/-!
# Reasoning about actions

`Action.Ensures E x s Q` says how `x` ends when it is run from `s`: in a result and a state of `Q`, or
with an error of `E`. Each way to build an action has one rule here, so the proofs about an operator
run through its definition line by line; `Ensures.forM` is the rule for loops.
-/

namespace ConstraintStreams

theorem except_bind_eq_ok {ε α β : Type} {x : Except ε α} {f : α → Except ε β} {b : β} :
    (x >>= f) = .ok b ↔ ∃ a, x = .ok a ∧ f a = .ok b := by
  cases x <;> simp [bind, Except.bind]

theorem except_bind_eq_error {ε α β : Type} {x : Except ε α} {f : α → Except ε β} {e : ε} :
    (x >>= f) = .error e ↔ x = .error e ∨ ∃ a, x = .ok a ∧ f a = .error e := by
  cases x <;> simp [bind, Except.bind]

/-- What fails with an error of `E` for each of some items, does so for all of them. -/
theorem except_error_of_mapM {α : Type u} {ε β : Type} {E : ε → Prop} {f : α → Except ε β} {as : List α} {e : ε}
    (hf : ∀ a ∈ as, ∀ e, f a = .error e → E e) (h : as.mapM f = .error e) : E e := by
  induction as with
  | nil => cases h
  | cons a rest ih =>
    rw [List.mapM_cons] at h
    rcases except_bind_eq_error.1 h with ha | ⟨b, -, h⟩
    · exact hf a List.mem_cons_self e ha
    · rcases except_bind_eq_error.1 h with hrest | ⟨bs, -, h⟩
      · exact ih (fun a ha => hf a (List.mem_cons_of_mem _ ha)) hrest
      · cases h

/-- What comes of some items comes of one of them. -/
theorem except_mem_of_mapM {α : Type u} {ε β : Type} {f : α → Except ε β} {as : List α} {bs : List β}
    {b : β} (h : as.mapM f = .ok bs) (hb : b ∈ bs) : ∃ a ∈ as, f a = .ok b := by
  induction as generalizing bs with
  | nil =>
    cases h
    cases hb
  | cons a rest ih =>
    rw [List.mapM_cons] at h
    obtain ⟨b', hb', h⟩ := except_bind_eq_ok.1 h
    obtain ⟨bs', hbs', h⟩ := except_bind_eq_ok.1 h
    cases h
    rcases List.mem_cons.1 hb with rfl | hb
    · exact ⟨a, List.mem_cons_self, hb'⟩
    · obtain ⟨a', ha', hf⟩ := ih hbs' hb
      exact ⟨a', List.mem_cons_of_mem a ha', hf⟩

/-- What is the same of every item before and after, is the same of all of them. -/
theorem except_map_of_mapM {α : Type u} {γ : Type v} {ε β : Type} {f : α → Except ε β} {as : List α}
    {bs : List β} {before : α → γ} {after : β → γ} (hf : ∀ a b, f a = .ok b → after b = before a)
    (h : as.mapM f = .ok bs) : bs.map after = as.map before := by
  induction as generalizing bs with
  | nil =>
    cases h
    rfl
  | cons a rest ih =>
    rw [List.mapM_cons] at h
    obtain ⟨b, hb, h⟩ := except_bind_eq_ok.1 h
    obtain ⟨bs', hbs', h⟩ := except_bind_eq_ok.1 h
    cases h
    rw [List.map_cons, List.map_cons, hf a b hb, ih hbs']

theorem except_error_of_foldlM {ε α β : Type} {E : ε → Prop} {f : β → α → Except ε β} {as : List α}
    {b : β} {e : ε} (hf : ∀ b a e, f b a = .error e → E e) (h : as.foldlM f b = .error e) : E e := by
  induction as generalizing b with
  | nil => cases h
  | cons a rest ih =>
    rw [List.foldlM_cons] at h
    rcases except_bind_eq_error.1 h with ha | ⟨b', -, h⟩
    · exact hf b a e ha
    · exact ih h

namespace Action

variable {σ τ α β : Type} {E : Error → Prop}

theorem bind_ok {x : Action σ α} {f : α → Action σ β} {s s' : σ} {a : α} (h : x s = .ok a s') :
    (x >>= f) s = f a s' := by
  simp [bind, EStateM.bind, h]

theorem bind_error {x : Action σ α} {f : α → Action σ β} {s s' : σ} {e : Error}
    (h : x s = .error e s') : (x >>= f) s = .error e s' := by
  simp [bind, EStateM.bind, h]

@[simp] theorem get_eq (s : σ) : (get : Action σ σ) s = .ok s s := rfl

theorem map_ok {x : Action σ α} {f : α → β} {s s' : σ} {a : α} (h : x s = .ok a s') :
    (f <$> x) s = .ok (f a) s' := by
  simp [Functor.map, EStateM.map, h]

theorem map_error {x : Action σ α} {f : α → β} {s s' : σ} {e : Error} (h : x s = .error e s') :
    (f <$> x) s = .error e s' := by
  simp [Functor.map, EStateM.map, h]

theorem bind_eq_ok {x : Action σ α} {f : α → Action σ β} {s s' : σ} {b : β} :
    (x >>= f) s = .ok b s' ↔ ∃ a t, x s = .ok a t ∧ f a t = .ok b s' := by
  cases hx : x s with
  | ok a t => simp [bind_ok hx, and_assoc]
  | error e t => simp [bind_error hx]

theorem lift_eq_ok {r : Except Error α} {s s' : σ} {a : α} :
    (liftM r : Action σ α) s = .ok a s' ↔ r = .ok a ∧ s' = s := by
  cases r with
  | ok b =>
    show EStateM.Result.ok b s = .ok a s' ↔ _
    simp [eq_comm]
  | error e =>
    show EStateM.Result.error e s = .ok a s' ↔ _
    simp

/-- The action succeeds with an answer that passes a test. -/
def answers (x : Action σ α) (s : σ) (test : α → Bool) : Bool :=
  match x s with
  | .ok a _ => test a
  | .error _ _ => false

theorem answers_iff {x : Action σ α} {s : σ} {test : α → Bool} :
    answers x s test = true ↔ ∃ a t, x s = .ok a t ∧ test a = true := by
  unfold answers
  cases hx : x s with
  | ok a t => simp
  | error e t => simp

/-- An action fails that has no answer. -/
theorem error_of_answers {x : Action σ α} {s : σ} (h : answers x s (fun _ => true) = false) :
    ∃ e t, x s = .error e t := by
  unfold answers at h
  cases hx : x s with
  | ok a t => simp [hx] at h
  | error e t => exact ⟨e, t, rfl⟩

/-- The action succeeds with an answer and a state that pass a test. -/
def attains (x : Action σ α) (s : σ) (test : α → σ → Bool) : Bool :=
  match x s with
  | .ok a t => test a t
  | .error _ _ => false

theorem attains_iff {x : Action σ α} {s : σ} {test : α → σ → Bool} :
    attains x s test = true ↔ ∃ a t, x s = .ok a t ∧ test a t = true := by
  unfold attains
  cases hx : x s with
  | ok a t => simp [and_assoc]
  | error e t => simp

/-- Run from `s`, the action ends in a result and a state of `Q`, or fails with an error of `E`. -/
def Ensures (E : Error → Prop) (x : Action σ α) (s : σ) (Q : α → σ → Prop) : Prop :=
  match x s with
  | .ok a s' => Q a s'
  | .error e _ => E e

theorem Ensures.of_ok {x : Action σ α} {s s' : σ} {a : α} {Q : α → σ → Prop}
    (h : Ensures E x s Q) (hx : x s = .ok a s') : Q a s' := by
  simpa [Ensures, hx] using h

theorem Ensures.of_error {x : Action σ α} {s s' : σ} {e : Error} {Q : α → σ → Prop}
    (h : Ensures E x s Q) (hx : x s = .error e s') : E e := by
  simpa [Ensures, hx] using h

theorem Ensures.mono {x : Action σ α} {s : σ} {Q R : α → σ → Prop} (h : Ensures E x s Q)
    (hQR : ∀ a s', Q a s' → R a s') : Ensures E x s R := by
  unfold Ensures at h ⊢
  split <;> simp_all

theorem Ensures.and {E' : Error → Prop} {x : Action σ α} {s : σ} {Q R : α → σ → Prop}
    (h : Ensures E x s Q) (h' : Ensures E' x s R) : Ensures E x s fun a s' => Q a s' ∧ R a s' := by
  unfold Ensures at h h' ⊢
  split <;> simp_all

theorem Ensures.all {ι : Type} {x : Action σ α} {s : σ} {Q : ι → α → σ → Prop}
    (h : ∀ i, Ensures (fun _ => True) x s (Q i)) :
    Ensures (fun _ => True) x s fun a s' => ∀ i, Q i a s' := by
  unfold Ensures at h ⊢
  cases hx : x s <;> simp_all

theorem Ensures.any (x : Action σ α) (s : σ) : Ensures (fun _ => True) x s fun _ _ => True := by
  unfold Ensures
  split <;> trivial

/-- Work that cannot fail, and whose outcome is known. -/
theorem Ensures.eq_ok {x : Action σ α} {s t : σ} {b : α}
    (h : Ensures (fun _ => False) x s fun a s' => a = b ∧ s' = t) : x s = .ok b t := by
  unfold Ensures at h
  cases hx : x s with
  | ok a s' => rw [hx] at h; rw [h.1, h.2]
  | error e s' => rw [hx] at h; exact h.elim

@[simp] theorem ensures_pure {a : α} {s : σ} {Q : α → σ → Prop} :
    Ensures E (pure a) s Q ↔ Q a s := Iff.rfl

@[simp] theorem ensures_bind {x : Action σ α} {f : α → Action σ β} {s : σ} {Q : β → σ → Prop} :
    Ensures E (x >>= f) s Q ↔ Ensures E x s fun a s' => Ensures E (f a) s' Q := by
  unfold Ensures
  cases hx : x s with
  | ok a s' => rw [bind_ok hx]
  | error e s' => rw [bind_error hx]

@[simp] theorem ensures_map {x : Action σ α} {f : α → β} {s : σ} {Q : β → σ → Prop} :
    Ensures E (f <$> x) s Q ↔ Ensures E x s fun a s' => Q (f a) s' := by
  rw [map_eq_pure_bind, ensures_bind]
  simp

@[simp] theorem ensures_discard {x : Action σ α} {s : σ} {Q : PUnit → σ → Prop} :
    Ensures E (discard x) s Q ↔ Ensures E x s fun _ s' => Q ⟨⟩ s' := by
  have h : discard x = (fun _ => PUnit.unit) <$> x := rfl
  rw [h, ensures_map]

@[simp] theorem ensures_throw {e : Error} {s : σ} {Q : α → σ → Prop} :
    Ensures E (throw e) s Q ↔ E e := Iff.rfl

@[simp] theorem ensures_get {s : σ} {Q : σ → σ → Prop} : Ensures E get s Q ↔ Q s s := Iff.rfl

@[simp] theorem ensures_set {s t : σ} {Q : PUnit → σ → Prop} :
    Ensures E (set t) s Q ↔ Q ⟨⟩ t := Iff.rfl

@[simp] theorem ensures_modify {f : σ → σ} {s : σ} {Q : PUnit → σ → Prop} :
    Ensures E (modify f) s Q ↔ Q ⟨⟩ (f s) := Iff.rfl

@[simp] theorem ensures_modifyGet {f : σ → α × σ} {s : σ} {Q : α → σ → Prop} :
    Ensures E (modifyGet f) s Q ↔ Q (f s).1 (f s).2 := Iff.rfl

@[simp] theorem ensures_ofExcept {r : Except Error α} {s : σ} {Q : α → σ → Prop} :
    Ensures E (ofExcept r) s Q ↔ (∀ a, r = .ok a → Q a s) ∧ ∀ e, r = .error e → E e := by
  cases r with
  | ok a =>
    show Q a s ↔ _
    simp
  | error e =>
    show E e ↔ _
    simp

@[simp] theorem ensures_lift {r : Except Error α} {s : σ} {Q : α → σ → Prop} :
    Ensures E (liftM r) s Q ↔ (∀ a, r = .ok a → Q a s) ∧ ∀ e, r = .error e → E e :=
  ensures_ofExcept

theorem ensures_lift_of_ok {r : Except Error α} {a : α} (h : r = .ok a) {s : σ} {Q : α → σ → Prop} :
    Ensures E (liftM r) s Q ↔ Q a s := by
  subst h; rfl

theorem tryCatch_eq (x : Action σ α) (handler : Error → Action σ α) (s : σ) :
    MonadExcept.tryCatch x handler s = match x s with
      | .ok a s' => .ok a s'
      | .error e s' => handler e s' := by
  show EStateM.tryCatch x handler s = _
  delta EStateM.tryCatch
  cases x s <;> rfl

/-- A handler takes over where the work fails. -/
theorem Ensures.handle {E' : Error → Prop} {x : Action σ α} {handler : Error → Action σ α} {s : σ}
    {Q : α → σ → Prop} (h : Ensures E' x s Q)
    (hhandler : ∀ e s', E' e → Ensures E (handler e) s' Q) : Ensures E (tryCatch x handler) s Q := by
  unfold Ensures at h ⊢
  rw [tryCatch_eq]
  cases hx : x s with
  | ok a s' =>
    rw [hx] at h
    exact h
  | error e s' =>
    rw [hx] at h
    exact hhandler e s' h

/-- A handler has no part in work that does not fail. -/
theorem Ensures.tryCatch {x : Action σ α} {handler : Error → Action σ α} {s : σ} {Q : α → σ → Prop}
    (h : Ensures (fun _ => False) x s Q) : Ensures E (tryCatch x handler) s Q :=
  h.handle fun _ _ he => he.elim

theorem ensures_within {view : σ → τ} {update : τ → σ → σ} {x : Action τ α} {s : σ}
    {Q : α → σ → Prop} :
    Ensures E (within view update x) s Q ↔ Ensures E x (view s) fun a t => Q a (update t s) := by
  unfold Ensures within
  cases x (view s) <;> rfl

@[simp] theorem ensures_forM_nil {f : α → Action σ PUnit} {s : σ} {Q : PUnit → σ → Prop} :
    Ensures E ([].forM f) s Q ↔ Q ⟨⟩ s := Iff.rfl

theorem ensures_forM_cons {f : α → Action σ PUnit} {a : α} {rest : List α} {s : σ}
    {Q : PUnit → σ → Prop} :
    Ensures E ((a :: rest).forM f) s Q ↔
      Ensures E (f a) s fun _ s' => Ensures E (rest.forM f) s' Q := by
  have hcons : (a :: rest).forM f = (f a >>= fun _ => rest.forM f) := rfl
  rw [hcons, ensures_bind]

/-- A loop keeps what each of its rounds keeps; `I` may speak of the rounds that are left. -/
theorem Ensures.forM {f : α → Action σ PUnit} (I : List α → σ → Prop)
    (step : ∀ a rest s, I (a :: rest) s → Ensures E (f a) s fun _ s' => I rest s')
    {l : List α} {s : σ} (h : I l s) : Ensures E (l.forM f) s fun _ s' => I [] s' := by
  induction l generalizing s with
  | nil => exact h
  | cons a rest ih =>
    rw [ensures_forM_cons]
    exact (step a rest s h).mono fun _ s' h' => ih h'

/-- The same for a loop that carries a value along. -/
theorem Ensures.foldlM {f : β → α → Action σ β} (I : List α → β → σ → Prop)
    (step : ∀ b a rest s, I (a :: rest) b s → Ensures E (f b a) s fun b' s' => I rest b' s')
    {l : List α} {b : β} {s : σ} (h : I l b s) :
    Ensures E (l.foldlM f b) s fun b' s' => I [] b' s' := by
  induction l generalizing b s with
  | nil => exact h
  | cons a rest ih =>
    rw [List.foldlM_cons, ensures_bind]
    exact (step b a rest s h).mono fun _ _ h' => ih h'

/-! ## Whichever way an action ends -/

/-- Run from `s`, the action ends in a result and a state of `Q`, or fails in a state of `R`. -/
def Ends (x : Action σ α) (s : σ) (Q : α → σ → Prop) (R : σ → Prop) : Prop :=
  match x s with
  | .ok a s' => Q a s'
  | .error _ s' => R s'

variable {R : σ → Prop}

theorem Ends.of_ok {x : Action σ α} {s s' : σ} {a : α} {Q : α → σ → Prop} (h : Ends x s Q R)
    (hx : x s = .ok a s') : Q a s' := by
  unfold Ends at h
  rwa [hx] at h

theorem Ends.of_error {x : Action σ α} {s s' : σ} {e : Error} {Q : α → σ → Prop} (h : Ends x s Q R)
    (hx : x s = .error e s') : R s' := by
  unfold Ends at h
  rwa [hx] at h

theorem Ends.mono {x : Action σ α} {s : σ} {Q Q' : α → σ → Prop} {R' : σ → Prop}
    (h : Ends x s Q R) (hQ : ∀ a s', Q a s' → Q' a s') (hR : ∀ s', R s' → R' s') :
    Ends x s Q' R' := by
  unfold Ends at h ⊢
  cases hx : x s with
  | ok a s' => rw [hx] at h; exact hQ a s' h
  | error e s' => rw [hx] at h; exact hR s' h

theorem Ends.and {x : Action σ α} {s : σ} {Q Q' : α → σ → Prop} {R' : σ → Prop}
    (h : Ends x s Q R) (h' : Ends x s Q' R') :
    Ends x s (fun a s' => Q a s' ∧ Q' a s') fun s' => R s' ∧ R' s' := by
  unfold Ends at h h' ⊢
  split <;> simp_all

/-- What holds of the results, and where it failed, put together. -/
theorem Ensures.ends {x : Action σ α} {s : σ} {Q : α → σ → Prop} (h : Ensures E x s Q)
    (hR : ∀ e s', E e → x s = .error e s' → R s') : Ends x s Q R := by
  unfold Ensures at h
  unfold Ends
  cases hx : x s with
  | ok a s' => rwa [hx] at h
  | error e s' => rw [hx] at h; exact hR e s' h hx

/-- What holds of the results, whatever is left where it failed. -/
theorem Ends.ensures {x : Action σ α} {s : σ} {Q : α → σ → Prop} (h : Ends x s Q R) :
    Ensures (fun _ => True) x s Q := by
  unfold Ends at h
  unfold Ensures
  cases hx : x s with
  | ok a s' => rwa [hx] at h
  | error e s' => trivial

@[simp] theorem ends_pure {a : α} {s : σ} {Q : α → σ → Prop} : Ends (pure a) s Q R ↔ Q a s := Iff.rfl

@[simp] theorem ends_throw {e : Error} {s : σ} {Q : α → σ → Prop} :
    Ends (throw e) s Q R ↔ R s := Iff.rfl

@[simp] theorem ends_get {s : σ} {Q : σ → σ → Prop} : Ends get s Q R ↔ Q s s := Iff.rfl

@[simp] theorem ends_set {s t : σ} {Q : PUnit → σ → Prop} : Ends (set t) s Q R ↔ Q ⟨⟩ t := Iff.rfl

@[simp] theorem ends_modify {f : σ → σ} {s : σ} {Q : PUnit → σ → Prop} :
    Ends (modify f) s Q R ↔ Q ⟨⟩ (f s) := Iff.rfl

@[simp] theorem ends_bind {x : Action σ α} {f : α → Action σ β} {s : σ} {Q : β → σ → Prop} :
    Ends (x >>= f) s Q R ↔ Ends x s (fun a s' => Ends (f a) s' Q R) R := by
  unfold Ends
  cases hx : x s with
  | ok a s' => rw [bind_ok hx]
  | error e s' => rw [bind_error hx]

@[simp] theorem ends_map {x : Action σ α} {f : α → β} {s : σ} {Q : β → σ → Prop} :
    Ends (f <$> x) s Q R ↔ Ends x s (fun a s' => Q (f a) s') R := by
  rw [map_eq_pure_bind, ends_bind]
  simp

@[simp] theorem ends_discard {x : Action σ α} {s : σ} {Q : PUnit → σ → Prop} :
    Ends (discard x) s Q R ↔ Ends x s (fun _ s' => Q ⟨⟩ s') R := by
  have h : discard x = (fun _ => PUnit.unit) <$> x := rfl
  rw [h, ends_map]

@[simp] theorem ends_ofExcept {r : Except Error α} {s : σ} {Q : α → σ → Prop} :
    Ends (ofExcept r) s Q R ↔ (∀ a, r = .ok a → Q a s) ∧ ∀ e, r = .error e → R s := by
  cases r with
  | ok a =>
    show Q a s ↔ _
    simp
  | error e =>
    show R s ↔ _
    simp

@[simp] theorem ends_lift {r : Except Error α} {s : σ} {Q : α → σ → Prop} :
    Ends (liftM r) s Q R ↔ (∀ a, r = .ok a → Q a s) ∧ ∀ e, r = .error e → R s :=
  ends_ofExcept

theorem ends_within {view : σ → τ} {update : τ → σ → σ} {x : Action τ α} {s : σ}
    {Q : α → σ → Prop} : Ends (within view update x) s Q R ↔
      Ends x (view s) (fun a t => Q a (update t s)) fun t => R (update t s) := by
  unfold Ends within
  cases x (view s) <;> rfl

/-- A loop keeps what each of its rounds keeps, up to a round that fails. -/
theorem Ends.forM {f : α → Action σ PUnit} (I : List α → σ → Prop)
    (step : ∀ a rest s, I (a :: rest) s → Ends (f a) s (fun _ s' => I rest s') R)
    {l : List α} {s : σ} (h : I l s) : Ends (l.forM f) s (fun _ s' => I [] s') R := by
  induction l generalizing s with
  | nil => exact h
  | cons a rest ih =>
    have hcons : (a :: rest).forM f = (f a >>= fun _ => rest.forM f) := rfl
    rw [hcons, ends_bind]
    exact (step a rest s h).mono (fun _ s' h' => ih h') fun _ => id

/-- A handler takes over where the work fails. -/
theorem Ends.handle {S : σ → Prop} {x : Action σ α} {handler : Error → Action σ α} {s : σ}
    {Q : α → σ → Prop} (h : Ends x s Q S) (hhandler : ∀ e s', S s' → Ends (handler e) s' Q R) :
    Ends (tryCatch x handler) s Q R := by
  unfold Ends at h ⊢
  rw [tryCatch_eq]
  cases hx : x s with
  | ok a s' =>
    rw [hx] at h
    exact h
  | error e s' =>
    rw [hx] at h
    exact hhandler e s' h

/-- The action keeps `I`, whether or not it fails. -/
def Keeps (I : σ → Prop) (x : Action σ α) : Prop := ∀ s, I s → Ends x s (fun _ => I) I

namespace Keeps

variable {I : σ → Prop} {x : Action σ α} {f : α → Action σ β}

theorem pure (a : α) : Keeps I (pure a : Action σ α) := fun _ h => h

theorem throw (e : Error) : Keeps I (throw e : Action σ α) := fun _ h => h

theorem modify {u : σ → σ} (hu : ∀ s, I s → I (u s)) : Keeps I (modify u : Action σ PUnit) := hu

theorem bind (hx : Keeps I x) (hf : ∀ a, Keeps I (f a)) : Keeps I (x >>= f) := fun s h =>
  ends_bind.2 ((hx s h).mono (fun a s' => hf a s') fun _ => id)

theorem set {s : σ} (hs : I s) : Keeps I (set s : Action σ PUnit) := fun _ _ => hs

theorem get_bind {f : σ → Action σ β} (hf : ∀ s, I s → Keeps I (f s)) :
    Keeps I (do let s ← get; f s) := fun s h => hf s h s h

/-- What follows a computation without a state may rely on its result. -/
theorem lift_bind {r : Except Error α} (hf : ∀ a, r = .ok a → Keeps I (f a)) :
    Keeps I (do let a ← (liftM r : Action σ α); f a) := by
  intro s h
  rw [ends_bind, ends_lift]
  exact ⟨fun a ha => hf a ha s h, fun _ _ => h⟩

theorem ofExcept (r : Except Error α) : Keeps I (ofExcept r : Action σ α) :=
  fun _ h => ends_ofExcept.2 ⟨fun _ _ => h, fun _ _ => h⟩

theorem lift (r : Except Error α) : Keeps I (liftM r : Action σ α) := ofExcept r

theorem map (hx : Keeps I x) (f : α → β) : Keeps I (f <$> x) := fun s h => ends_map.2 (hx s h)

theorem discard (hx : Keeps I x) : Keeps I (discard x : Action σ PUnit) :=
  fun s h => ends_discard.2 (hx s h)

/-- A loop keeps what its rounds keep. -/
theorem forM_mem {f : β → Action σ PUnit} {bs : List β} (hf : ∀ b ∈ bs, Keeps I (f b)) :
    Keeps I (bs.forM f) := by
  induction bs with
  | nil => exact pure _
  | cons b rest ih =>
    exact bind (hf b List.mem_cons_self) fun _ => ih fun b hb => hf b (List.mem_cons_of_mem _ hb)

theorem forM {f : β → Action σ PUnit} (hf : ∀ b, Keeps I (f b)) (bs : List β) :
    Keeps I (bs.forM f) :=
  forM_mem fun b _ => hf b

theorem mapM {f : β → Action σ α} (hf : ∀ b, Keeps I (f b)) (bs : List β) :
    Keeps I (bs.mapM f) := by
  induction bs with
  | nil => exact pure _
  | cons b rest ih =>
    rw [List.mapM_cons]
    exact bind (hf b) fun _ => bind ih fun _ => pure _

theorem ensures (hx : Keeps I x) {s : σ} (h : I s) : Ensures (fun _ => True) x s fun _ => I :=
  (hx s h).ensures

theorem mapMOption {f : β → Action σ α} (hf : ∀ b, Keeps I (f b)) (b? : Option β) :
    Keeps I (b?.mapM f) := by
  cases b? with
  | none => exact pure _
  | some b => exact map (hf b) some

theorem and {J : σ → Prop} (hI : Keeps I x) (hJ : Keeps J x) : Keeps (fun s => I s ∧ J s) x :=
  fun s h => (hI s h.1).and (hJ s h.2)

theorem all {ι : Type} {J : ι → σ → Prop} (hJ : ∀ i, Keeps (J i) x) : Keeps (fun s => ∀ i, J i s) x := by
  intro s h
  have hJ := fun i => hJ i s (h i)
  unfold Ends at hJ ⊢
  cases hx : x s <;> simp_all

theorem foldlM {f : β → α → Action σ β} (hf : ∀ b a, Keeps I (f b a)) (as : List α) (b : β) :
    Keeps I (as.foldlM f b) := by
  induction as generalizing b with
  | nil => exact pure _
  | cons a rest ih =>
    rw [List.foldlM_cons]
    exact bind (hf b a) fun b' => ih b'

end Keeps

/-- The action keeps `I`, whether or not it fails, and answers only what is in `Q`. -/
def Gives (I : σ → Prop) (Q : α → Prop) (x : Action σ α) : Prop :=
  ∀ s, I s → Ends x s (fun a s' => I s' ∧ Q a) I

namespace Gives

variable {I : σ → Prop} {P : α → Prop} {Q : β → Prop} {x : Action σ α} {f : α → Action σ β}

theorem pure {a : α} (ha : P a) : Gives I P (pure a : Action σ α) := fun _ h => ⟨h, ha⟩

theorem throw (e : Error) : Gives I P (throw e : Action σ α) := fun _ h => h

theorem lift {r : Except Error α} (hr : ∀ a, r = .ok a → P a) : Gives I P (liftM r : Action σ α) :=
  fun _ h => ends_lift.2 ⟨fun a ha => ⟨h, hr a ha⟩, fun _ _ => h⟩

theorem bind (hx : Gives I P x) (hf : ∀ a, P a → Gives I Q (f a)) : Gives I Q (x >>= f) := fun s h =>
  ends_bind.2 ((hx s h).mono (fun a s' h' => hf a h'.2 s' h'.1) fun _ => id)

/-- What follows may rely on the answer. -/
theorem bind_keeps (hx : Gives I P x) (hf : ∀ a, P a → Keeps I (f a)) : Keeps I (x >>= f) := fun s h =>
  ends_bind.2 ((hx s h).mono (fun a s' h' => hf a h'.2 s' h'.1) fun _ => id)

end Gives

theorem Keeps.gives {I : σ → Prop} {x : Action σ α} (hx : Keeps I x) : Gives I (fun _ => True) x :=
  fun s h => (hx s h).mono (fun _ _ h' => ⟨h', trivial⟩) fun _ => id

/-- Run from `s`, the action ends in a state of `I`, or fails as `F` says. -/
def EndsUnless (F : Error → σ → Prop) (I : σ → Prop) (x : Action σ α) (s : σ) : Prop :=
  match x s with
  | .ok _ s' => I s'
  | .error e s' => F e s' ∨ I s'

/-- The action keeps `I`, whether or not it fails, unless it fails as `F` says. -/
def KeepsUnless (F : Error → σ → Prop) (I : σ → Prop) (x : Action σ α) : Prop :=
  ∀ s, I s → EndsUnless F I x s

section Unless

variable {F : Error → σ → Prop} {I : σ → Prop} {x : Action σ α} {f : α → Action σ β} {s s' : σ}

theorem EndsUnless.of_ok (h : EndsUnless F I x s) {a : α} (hx : x s = .ok a s') : I s' := by
  unfold EndsUnless at h
  rwa [hx] at h

theorem EndsUnless.of_error (h : EndsUnless F I x s) {e : Error} (hx : x s = .error e s') :
    F e s' ∨ I s' := by
  unfold EndsUnless at h
  rwa [hx] at h

theorem endsUnless_of_ok {a : α} (hx : x s = .ok a s') (h : I s') : EndsUnless F I x s := by
  unfold EndsUnless
  rwa [hx]

theorem endsUnless_of_error {e : Error} (hx : x s = .error e s') (h : F e s' ∨ I s') :
    EndsUnless F I x s := by
  unfold EndsUnless
  rwa [hx]

theorem endsUnless_bind_of_ok {a : α} (hx : x s = .ok a s') :
    EndsUnless F I (x >>= f) s ↔ EndsUnless F I (f a) s' := by
  unfold EndsUnless
  rw [bind_ok hx]

theorem EndsUnless.bind (hx : EndsUnless F I x s) (hf : ∀ a s', I s' → EndsUnless F I (f a) s') :
    EndsUnless F I (x >>= f) s := by
  cases hxs : x s with
  | ok a s' => exact (endsUnless_bind_of_ok hxs).2 (hf a s' (hx.of_ok hxs))
  | error e s' => exact endsUnless_of_error (bind_error hxs) (hx.of_error hxs)

/-- The same, with what is known of the result and the state in between. -/
theorem Ends.bindUnless {Q : α → σ → Prop} (hx : Ends x s Q I)
    (hf : ∀ a s', Q a s' → EndsUnless F I (f a) s') : EndsUnless F I (x >>= f) s := by
  cases hxs : x s with
  | ok a s' => exact (endsUnless_bind_of_ok hxs).2 (hf a s' (hx.of_ok hxs))
  | error e s' => exact endsUnless_of_error (bind_error hxs) (.inr (hx.of_error hxs))

theorem endsUnless_within {view : σ → τ} {update : τ → σ → σ} {y : Action τ α} :
    EndsUnless F I (within view update y) s ↔
      EndsUnless (fun e t => F e (update t s)) (fun t => I (update t s)) y (view s) := by
  unfold EndsUnless within
  cases y (view s) <;> rfl

theorem EndsUnless.mono {F' : Error → σ → Prop} {I' : σ → Prop} (h : EndsUnless F I x s)
    (hF : ∀ e s, F e s → F' e s) (hI : ∀ s, I s → I' s) : EndsUnless F' I' x s := by
  cases hx : x s with
  | ok a s' => exact endsUnless_of_ok hx (hI s' (h.of_ok hx))
  | error e s' => exact endsUnless_of_error hx ((h.of_error hx).imp (hF e s') (hI s'))

end Unless

namespace KeepsUnless

variable {F : Error → σ → Prop} {I : σ → Prop} {x : Action σ α} {f : α → Action σ β}

theorem of_keeps (h : Keeps I x) : KeepsUnless F I x := by
  intro s hs
  cases hx : x s with
  | ok a s' => exact endsUnless_of_ok hx ((h s hs).of_ok hx)
  | error e s' => exact endsUnless_of_error hx (.inr ((h s hs).of_error hx))

/-- Where the failures keep `I` as well, the action keeps it. -/
theorem keeps (h : KeepsUnless F I x) (hF : ∀ e s, F e s → I s) : Keeps I x := by
  intro s hs
  unfold Ends
  cases hx : x s with
  | ok a s' => exact (h s hs).of_ok hx
  | error e s' => exact ((h s hs).of_error hx).elim (hF e s') id

theorem bind (hx : KeepsUnless F I x) (hf : ∀ a, KeepsUnless F I (f a)) : KeepsUnless F I (x >>= f) :=
  fun s hs => (hx s hs).bind fun a => hf a

theorem get_bind {f : σ → Action σ β} (hf : ∀ s, I s → KeepsUnless F I (f s)) :
    KeepsUnless F I (do let s ← get; f s) := fun s hs => hf s hs s hs

theorem lift_bind {r : Except Error α} (hf : ∀ a, r = .ok a → KeepsUnless F I (f a)) :
    KeepsUnless F I (do let a ← (liftM r : Action σ α); f a) := by
  cases r with
  | ok a => exact hf a rfl
  | error e => exact fun s hs => .inr hs

theorem forM {f : β → Action σ PUnit} (hf : ∀ b, KeepsUnless F I (f b)) (bs : List β) :
    KeepsUnless F I (bs.forM f) := by
  induction bs with
  | nil => exact of_keeps (.pure _)
  | cons b rest ih => exact bind (hf b) fun _ => ih

end KeepsUnless

/-- The action keeps `I` unless it fails, and then the error is one of `E`. -/
def Maintains (E : Error → Prop) (I : σ → Prop) (x : Action σ α) : Prop :=
  ∀ s, I s → Ensures E x s fun _ => I

namespace Maintains

variable {I : σ → Prop} {x : Action σ α} {f : α → Action σ β}

theorem pure (a : α) : Maintains E I (pure a : Action σ α) := fun _ h => h

theorem modify {u : σ → σ} (hu : ∀ s, I s → I (u s)) :
    Maintains E I (modify u : Action σ PUnit) := hu

theorem bind (hx : Maintains E I x) (hf : ∀ a, Maintains E I (f a)) : Maintains E I (x >>= f) :=
  fun s h => ensures_bind.2 ((hx s h).mono fun a s' => hf a s')

theorem get_bind {f : σ → Action σ β} (hf : ∀ s, I s → Maintains E I (f s)) :
    Maintains E I (do let s ← get; f s) := fun s h => hf s h s h

theorem lift {r : Except Error α} (hr : ∀ e, r = .error e → E e) :
    Maintains E I (liftM r : Action σ α) := fun _ h => ensures_lift.2 ⟨fun _ _ => h, hr⟩

theorem forM {f : β → Action σ PUnit} {bs : List β} (hf : ∀ b ∈ bs, Maintains E I (f b)) :
    Maintains E I (bs.forM f) := by
  induction bs with
  | nil => exact pure _
  | cons b rest ih =>
    exact bind (hf b List.mem_cons_self) fun _ => ih fun b hb => hf b (List.mem_cons_of_mem _ hb)

theorem mapM {f : β → Action σ α} (hf : ∀ b, Maintains E I (f b)) (bs : List β) :
    Maintains E I (bs.mapM f) := by
  induction bs with
  | nil => exact pure _
  | cons b rest ih =>
    rw [List.mapM_cons]
    exact bind (hf b) fun _ => bind ih fun _ => pure _

end Maintains

/-! ## Changes of state that an action does not see -/

/-- How an action ended, with its state changed by `c`. -/
def mapState (c : σ → σ) : EStateM.Result Error σ α → EStateM.Result Error σ α
  | .ok a s => .ok a (c s)
  | .error e s => .error e (c s)

/-- Whether the state is changed by `c` before the action or after it comes to the same. -/
def Commutes (c : σ → σ) (x : Action σ α) : Prop := ∀ s, x (c s) = mapState c (x s)

namespace Commutes

variable {c : σ → σ} {x : Action σ α} {f : α → Action σ β} {s : σ}

theorem pure (a : α) : Commutes c (pure a : Action σ α) := fun _ => rfl

theorem throw (e : Error) : Commutes c (throw e : Action σ α) := fun _ => rfl

theorem ofExcept (r : Except Error α) : Commutes c (ofExcept r : Action σ α) := by
  cases r with
  | ok a => exact pure a
  | error e => exact throw e

theorem modify {u : σ → σ} (hu : ∀ s, u (c s) = c (u s)) :
    Commutes c (modify u : Action σ PUnit) := by
  intro s
  show EStateM.Result.ok _ (u (c s)) = .ok _ (c (u s))
  rw [hu]

/-- Work on a part of the state that `c` leaves alone. -/
theorem within {view : σ → τ} {update : τ → σ → σ} (hview : ∀ s, view (c s) = view s)
    (hupdate : ∀ t s, update t (c s) = c (update t s)) (x : Action τ α) :
    Commutes c (within view update x) := by
  intro s
  unfold Action.within
  rw [hview]
  cases x (view s) with
  | ok a t => exact congrArg (EStateM.Result.ok a) (hupdate t s)
  | error e t => exact congrArg (EStateM.Result.error e) (hupdate t s)

/-- One step after another, from one state. -/
theorem bind_at (hx : x (c s) = mapState c (x s)) (hf : ∀ a s', x s = .ok a s' →
    f a (c s') = mapState c (f a s')) : (x >>= f) (c s) = mapState c ((x >>= f) s) := by
  cases hs : x s with
  | ok a s' =>
    rw [hs] at hx
    rw [bind_ok hs, bind_ok hx]
    exact hf a s' hs
  | error e s' =>
    rw [hs] at hx
    rw [bind_error hs, bind_error hx]
    rfl

theorem bind (hx : Commutes c x) (hf : ∀ a, Commutes c (f a)) : Commutes c (x >>= f) :=
  fun s => bind_at (hx s) fun a s' _ => hf a s'

/-- What is read is the state itself. -/
theorem get_bind {f : σ → Action σ β} (hf : ∀ s, f (c s) (c s) = mapState c (f s s)) :
    Commutes c (do let s ← get; f s) := hf

/-- Only what `c` leaves alone is read. -/
theorem read {f : σ → Action σ β} (hsame : ∀ s, f (c s) = f s) (hf : ∀ s, Commutes c (f s)) :
    Commutes c (do let s ← get; f s) :=
  get_bind fun s => by rw [hsame]; exact hf s s

/-- The state is replaced, and the work goes on. -/
theorem set_bind {t t' : σ} {y : Action σ β} (ht : t' = c t) (hy : Commutes c y) (s s' : σ) :
    (do set t'; y : Action σ β) s' = mapState c ((do set t; y : Action σ β) s) := by
  subst ht
  exact hy t

theorem map_at (hx : x (c s) = mapState c (x s)) (f : α → β) :
    (f <$> x) (c s) = mapState c ((f <$> x) s) := by
  rw [map_eq_pure_bind]
  exact bind_at hx fun _ _ _ => rfl

theorem map (hx : Commutes c x) (f : α → β) : Commutes c (f <$> x) := fun s => map_at (hx s) f

theorem discard (hx : Commutes c x) : Commutes c (discard x : Action σ PUnit) := hx.map _

theorem forM {f : β → Action σ PUnit} (hf : ∀ b, Commutes c (f b)) (bs : List β) :
    Commutes c (bs.forM f) := by
  induction bs with
  | nil => exact pure _
  | cons b rest ih => exact bind (hf b) fun _ => ih

theorem mapM {f : β → Action σ α} (hf : ∀ b, Commutes c (f b)) (bs : List β) :
    Commutes c (bs.mapM f) := by
  induction bs with
  | nil => exact pure _
  | cons b rest ih =>
    rw [List.mapM_cons]
    exact bind (hf b) fun _ => bind ih fun _ => pure _

end Commutes

/-! ## Work that also keeps a record -/

/-- To what `view` shows of its state, the action `x` does what `y` does, and it ends alike. -/
def Follows (view : σ → τ) (x : Action σ α) (y : Action τ α) : Prop :=
  ∀ s, match x s with
    | .ok a s' => y (view s) = .ok a (view s')
    | .error e s' => y (view s) = .error e (view s')

namespace Follows

variable {view : σ → τ} {x : Action σ α} {y : Action τ α}

theorem of_ok (h : Follows view x y) {s s' : σ} {a : α} (hx : x s = .ok a s') :
    y (view s) = .ok a (view s') := by
  have hs := h s
  rwa [hx] at hs

theorem of_error (h : Follows view x y) {s s' : σ} {e : Error} (hx : x s = .error e s') :
    y (view s) = .error e (view s') := by
  have hs := h s
  rwa [hx] at hs

/-- What one ensures of what is seen, the other ensures. -/
theorem ensures_iff (h : Follows view x y) {s : σ} {Q : α → τ → Prop} :
    Ensures E y (view s) Q ↔ Ensures E x s fun a s' => Q a (view s') := by
  unfold Ensures
  cases hx : x s with
  | ok a s' => rw [h.of_ok hx]
  | error e s' => rw [h.of_error hx]

theorem pure (a : α) : Follows view (pure a : Action σ α) (pure a) := fun _ => rfl

theorem throw (e : Error) : Follows view (throw e : Action σ α) (throw e) := fun _ => rfl

theorem bind {f : α → Action σ β} {h : α → Action τ β} (hx : Follows view x y)
    (hf : ∀ a, Follows view (f a) (h a)) : Follows view (x >>= f) (y >>= h) := by
  intro s
  cases hs : x s with
  | ok a s' =>
    rw [bind_ok hs, bind_ok (hx.of_ok hs)]
    exact hf a s'
  | error e s' => rw [bind_error hs, bind_error (hx.of_error hs)]

/-- What is seen of what is seen. -/
theorem trans {ρ : Type} {view' : τ → ρ} {z : Action ρ α} (h : Follows view x y)
    (h' : Follows view' y z) : Follows (fun s => view' (view s)) x z := by
  intro s
  cases hx : x s with
  | ok a s' => exact h'.of_ok (h.of_ok hx)
  | error e s' => exact h'.of_error (h.of_error hx)

/-- Work on just what is seen. -/
theorem within {update : τ → σ → σ} (hupdate : ∀ t s, view (update t s) = t) (y : Action τ α) :
    Follows view (within view update y) y := by
  intro s
  unfold Action.within
  cases y (view s) <;> simp [hupdate]

theorem lift (r : Except Error α) : Follows view (liftM r : Action σ α) (liftM r) := by
  intro s
  cases r <;> rfl

/-- Keeping the record changes nothing that is seen. -/
theorem note {u : σ → σ} (hu : ∀ s, view (u s) = view s) (h : Follows view x y) :
    Follows view (do modify u; x) y := by
  intro s
  rw [← hu s]
  exact h (u s)

/-- Nor does a look at the record. -/
theorem peek {f : σ → Action σ α} (hf : ∀ s, Follows view (f s) y) :
    Follows view (do let s ← get; f s) y :=
  fun s => hf s s

theorem get {f : σ → Action σ α} {h : τ → Action τ α}
    (hf : ∀ s, Follows view (f s) (h (view s))) :
    Follows view (do let s ← get; f s) (do let s ← get; h s) :=
  fun s => hf s s

theorem map (h : Follows view x y) (f : α → β) : Follows view (f <$> x) (f <$> y) := by
  rw [map_eq_pure_bind, map_eq_pure_bind]
  exact h.bind fun _ => pure _

theorem discard (h : Follows view x y) : Follows view (discard x) (discard y) := h.map _

theorem forM {f : β → Action σ PUnit} {h : β → Action τ PUnit}
    (hf : ∀ b, Follows view (f b) (h b)) (bs : List β) : Follows view (bs.forM f) (bs.forM h) := by
  induction bs with
  | nil => exact pure _
  | cons b rest ih => exact (hf b).bind fun _ => ih

end Follows

/-! ## Running an action -/

/-- The state that an action leaves when it ends well. -/
def outcome? (x : Action σ α) (s : σ) : Option σ :=
  match x s with
  | .ok _ s' => some s'
  | .error _ _ => none

theorem outcome?_eq_some_iff {x : Action σ α} {s s' : σ} :
    x.outcome? s = some s' ↔ ∃ a, x s = .ok a s' := by
  unfold outcome?
  cases x s <;> simp

theorem eq_ok_outcome {x : Action σ Unit} {s : σ} (h : (x.outcome? s).isSome = true) :
    x s = .ok () ((x.outcome? s).get h) := by
  obtain ⟨⟨⟩, hx⟩ := outcome?_eq_some_iff.1 (Option.some_get h).symm
  exact hx

end Action

end ConstraintStreams
