import Mathlib.Data.List.Forall2

/-!
# Computations with a state that stays when they fail

An `Effect` reads and writes a state and may fail; what it has written before it fails is not taken back.
`bind_eq_ok` and `bind_eq_error` take a composition apart, `exists_of_run` evaluates a concrete run.  `Keeps obs`
says that whatever an effect does and however it ends, `obs` of the state is as before; it passes through
compositions, branches and loops.  So does `Moves R`, which says that the state has moved along the preorder `R`.
-/

namespace Base

/-- Each element of the second list is related to one of the first. -/
theorem exists_of_forall₂ {α β : Type} {R : α → β → Prop} {as : List α} {bs : List β} (h : List.Forall₂ R as bs)
    {b : β} (hb : b ∈ bs) : ∃ a ∈ as, R a b := by
  induction h with
  | nil => cases hb
  | cons hab _ ih =>
    rcases List.mem_cons.1 hb with rfl | hb
    · exact ⟨_, List.mem_cons_self, hab⟩
    · obtain ⟨a, ha, hR⟩ := ih hb
      exact ⟨a, List.mem_cons_of_mem _ ha, hR⟩

def Effect (σ ε α : Type) : Type := σ → Except ε α × σ

namespace Effect

variable {σ ε α β γ : Type}

instance : Monad (Effect σ ε) where
  pure a := fun s => (.ok a, s)
  bind x f := fun s =>
    match x s with
    | (.ok a, s') => f a s'
    | (.error e, s') => (.error e, s')

def fail (e : ε) : Effect σ ε α := fun s => (.error e, s)

/-- An effect whose failure is given back as a value. -/
def attempt (x : Effect σ ε α) : Effect σ ε (Except ε α) := fun s => (.ok (x s).1, (x s).2)

/-- A computation without state. -/
def lift (x : Except ε α) : Effect σ ε α := fun s => (x, s)

/-- One effect for each element, in order. -/
def each (f : α → Effect σ ε Unit) : List α → Effect σ ε Unit
  | [] => pure ()
  | a :: as => do
    f a
    each f as

/-- One effect for each element, in order, with the list of their values. -/
def collect (f : α → Effect σ ε β) : List α → Effect σ ε (List β)
  | [] => pure []
  | a :: as => do
    let b ← f a
    let bs ← collect f as
    return b :: bs

private theorem bind_run (x : Effect σ ε α) (f : α → Effect σ ε β) (s : σ) :
    (x >>= f) s = match x s with
      | (.ok a, s') => f a s'
      | (.error e, s') => (.error e, s') := rfl

theorem bind_of_ok {x : Effect σ ε α} {s s' : σ} {a : α} (h : x s = (.ok a, s')) (f : α → Effect σ ε β) :
    (x >>= f) s = f a s' := by
  rw [bind_run, h]

theorem bind_of_error {x : Effect σ ε α} {s s' : σ} {e : ε} (h : x s = (.error e, s')) (f : α → Effect σ ε β) :
    (x >>= f) s = (.error e, s') := by
  rw [bind_run, h]

theorem bind_eq_ok {x : Effect σ ε α} {f : α → Effect σ ε β} {s s' : σ} {b : β} :
    (x >>= f) s = (.ok b, s') ↔ ∃ a s₁, x s = (.ok a, s₁) ∧ f a s₁ = (.ok b, s') := by
  constructor
  · intro h
    cases hx : x s with
    | mk r s₁ =>
      cases r with
      | ok a => exact ⟨a, s₁, rfl, (bind_of_ok hx f).symm.trans h⟩
      | error e => cases (bind_of_error hx f).symm.trans h
  · rintro ⟨a, s₁, hx, hf⟩
    exact (bind_of_ok hx f).trans hf

theorem attempt_eq {x : Effect σ ε α} {s s' : σ} {r : Except ε α} : attempt x s = (.ok r, s') ↔ x s = (r, s') := by
  constructor
  · intro h
    cases h
    rfl
  · intro h
    rw [attempt, h]

/-- A concrete run that succeeds, with a property of its value and of the state that it leaves. -/
theorem exists_of_run {x : Effect σ ε α} {s : σ} {p : α → σ → Prop} [∀ a s', Decidable (p a s')]
    (h : (x s).1.toOption.any (fun a => decide (p a (x s).2)) = true) : ∃ a s', x s = (.ok a, s') ∧ p a s' := by
  rcases hx : x s with ⟨r, s'⟩
  rw [hx] at h
  cases r with
  | error e => cases h
  | ok a => exact ⟨a, s', rfl, of_decide_eq_true h⟩

theorem bind_eq_error {x : Effect σ ε α} {f : α → Effect σ ε β} {s s' : σ} {e : ε} :
    (x >>= f) s = (.error e, s') ↔
      x s = (.error e, s') ∨ ∃ a s₁, x s = (.ok a, s₁) ∧ f a s₁ = (.error e, s') := by
  constructor
  · intro h
    cases hx : x s with
    | mk r s₁ =>
      cases r with
      | ok a => exact Or.inr ⟨a, s₁, rfl, (bind_of_ok hx f).symm.trans h⟩
      | error e' =>
        cases (bind_of_error hx f).symm.trans h
        exact Or.inl rfl
  · rintro (hx | ⟨a, s₁, hx, hf⟩)
    · exact bind_of_error hx f
    · exact (bind_of_ok hx f).trans hf

/-- However the effect ends, `obs` of the state is as before. -/
def Keeps (obs : σ → γ) (x : Effect σ ε α) : Prop := ∀ s, obs (x s).2 = obs s

namespace Keeps

variable {obs : σ → γ} {x : Effect σ ε α}

theorem of_run (h : Keeps obs x) {s s' : σ} {r : Except ε α} (hx : x s = (r, s')) : obs s' = obs s := by
  have := h s
  rw [hx] at this
  exact this

theorem pure (a : α) : Keeps obs (pure a : Effect σ ε α) := fun _ => rfl

theorem fail (e : ε) : Keeps obs (fail e : Effect σ ε α) := fun _ => rfl

theorem lift (r : Except ε α) : Keeps obs (lift r : Effect σ ε α) := fun _ => rfl

theorem attempt (h : Keeps obs x) : Keeps obs x.attempt := h

theorem bind (h : Keeps obs x) {f : α → Effect σ ε β} (hf : ∀ a, Keeps obs (f a)) : Keeps obs (x >>= f) := by
  intro s
  cases hx : x s with
  | mk r s₁ =>
    cases r with
    | ok a =>
      rw [bind_of_ok hx]
      exact (hf a s₁).trans (h.of_run hx)
    | error e =>
      rw [bind_of_error hx]
      exact h.of_run hx

theorem ite {p : Prop} [Decidable p] {y : Effect σ ε α} (hx : Keeps obs x) (hy : Keeps obs y) :
    Keeps obs (if p then x else y) := by
  split
  · exact hx
  · exact hy

theorem each {f : α → Effect σ ε Unit} (h : ∀ a, Keeps obs (f a)) (as : List α) : Keeps obs (each f as) := by
  induction as with
  | nil => exact pure ()
  | cons a as ih => exact (h a).bind fun _ => ih

theorem collect {f : α → Effect σ ε β} (h : ∀ a, Keeps obs (f a)) (as : List α) : Keeps obs (collect f as) := by
  induction as with
  | nil => exact pure []
  | cons a as ih => exact (h a).bind fun b => ih.bind fun bs => pure (b :: bs)

end Keeps

/-- However the effect ends, the state has moved along `R`. -/
def Moves (R : σ → σ → Prop) (x : Effect σ ε α) : Prop := ∀ s, R s (x s).2

namespace Moves

variable {R : σ → σ → Prop} {x : Effect σ ε α}

theorem of_run (h : Moves R x) {s s' : σ} {r : Except ε α} (hx : x s = (r, s')) : R s s' := by
  have := h s
  rw [hx] at this
  exact this

theorem attempt (h : Moves R x) : Moves R x.attempt := h

theorem ite {p : Prop} [Decidable p] {y : Effect σ ε α} (hx : Moves R x) (hy : Moves R y) :
    Moves R (if p then x else y) := by
  split
  · exact hx
  · exact hy

theorem bind (htrans : ∀ s s' s'', R s s' → R s' s'' → R s s'') (h : Moves R x) {f : α → Effect σ ε β}
    (hf : ∀ a, Moves R (f a)) : Moves R (x >>= f) := by
  intro s
  cases hx : x s with
  | mk r s₁ =>
    cases r with
    | ok a =>
      rw [bind_of_ok hx]
      exact htrans _ _ _ (h.of_run hx) (hf a s₁)
    | error e =>
      rw [bind_of_error hx]
      exact h.of_run hx

theorem each (hrefl : ∀ s, R s s) (htrans : ∀ s s' s'', R s s' → R s' s'' → R s s'') {f : α → Effect σ ε Unit}
    {as : List α} (h : ∀ a ∈ as, Moves R (f a)) : Moves R (each f as) := by
  induction as with
  | nil => exact hrefl
  | cons a as ih =>
    exact (h a List.mem_cons_self).bind htrans fun _ => ih fun b hb => h b (List.mem_cons_of_mem a hb)

theorem collect (hrefl : ∀ s, R s s) (htrans : ∀ s s' s'', R s s' → R s' s'' → R s s'') {f : α → Effect σ ε β}
    {as : List α} (h : ∀ a ∈ as, Moves R (f a)) : Moves R (collect f as) := by
  induction as with
  | nil => exact hrefl
  | cons a as ih =>
    have hrest := ih fun b hb => h b (List.mem_cons_of_mem a hb)
    exact (h a List.mem_cons_self).bind htrans fun b => hrest.bind htrans fun bs => hrefl

end Moves

/-! ### Loops that succeed -/

/-- What each step of a loop brings about, and later steps do not undo, holds after the loop. -/
theorem forall_of_each {Q : α → σ → Prop} {f : α → Effect σ ε Unit}
    (hkeep : ∀ a b s s', f b s = (.ok (), s') → Q a s → Q a s') (hstep : ∀ a s s', f a s = (.ok (), s') → Q a s')
    {as : List α} {s s' : σ} (h : each f as s = (.ok (), s')) : ∀ a ∈ as, Q a s' := by
  have hlater : ∀ a (bs : List α) s s', each f bs s = (.ok (), s') → Q a s → Q a s' := by
    intro a bs
    induction bs with
    | nil =>
      intro s s' h hQ
      cases h
      exact hQ
    | cons b bs ih =>
      intro s s' h hQ
      obtain ⟨_, s₁, hb, hrest⟩ := bind_eq_ok.1 h
      exact ih s₁ s' hrest (hkeep a b s s₁ hb hQ)
  induction as generalizing s with
  | nil => exact fun _ ha => absurd ha List.not_mem_nil
  | cons a as ih =>
    obtain ⟨_, s₁, ha, hrest⟩ := bind_eq_ok.1 h
    exact List.forall_mem_cons.2 ⟨hlater a as s₁ s' hrest (hstep a s s₁ ha), ih hrest⟩

/-- The values of a loop: each step moves the state up in an order that keeps the relations of the values before it.
-/
theorem forall₂_of_collect (le : σ → σ → Prop) (R : σ → α → β → Prop) {f : α → Effect σ ε β} (hrefl : ∀ s, le s s)
    (htrans : ∀ s s' s'', le s s' → le s' s'' → le s s'') (hmono : ∀ s s' a b, le s s' → R s a b → R s' a b)
    (hstep : ∀ a b s s', f a s = (.ok b, s') → le s s' ∧ R s' a b) {as : List α} {bs : List β} {s s' : σ}
    (h : collect f as s = (.ok bs, s')) : le s s' ∧ List.Forall₂ (R s') as bs := by
  induction as generalizing bs s with
  | nil =>
    cases h
    exact ⟨hrefl _, .nil⟩
  | cons a as ih =>
    obtain ⟨b, s₁, ha, h⟩ := bind_eq_ok.1 h
    obtain ⟨bs', s₂, has, h⟩ := bind_eq_ok.1 h
    cases h
    obtain ⟨hle, hab⟩ := hstep a b s s₁ ha
    obtain ⟨hle', hrest⟩ := ih has
    exact ⟨htrans _ _ _ hle hle', .cons (hmono _ _ _ _ hle' hab) hrest⟩

/-- A loop whose steps all succeed. -/
theorem exists_of_each {P : σ → Prop} {f : α → Effect σ ε Unit} {as : List α}
    (h : ∀ a ∈ as, ∀ s, P s → ∃ s', f a s = (.ok (), s') ∧ P s') {s : σ} (hs : P s) :
    ∃ s', each f as s = (.ok (), s') ∧ P s' := by
  induction as generalizing s with
  | nil => exact ⟨s, rfl, hs⟩
  | cons a as ih =>
    obtain ⟨s₁, ha, hs₁⟩ := h a List.mem_cons_self s hs
    obtain ⟨s', hrest, hs'⟩ := ih (fun b hb => h b (List.mem_cons_of_mem a hb)) hs₁
    exact ⟨s', bind_eq_ok.2 ⟨(), s₁, ha, hrest⟩, hs'⟩

end Effect

end Base
