import Elsa.Base.Steps

/-!
# Two processes that do not disturb each other

The labels of a run belong to one of two processes.  If a step of the one stays possible after a step of the other,
with the same outcome in both orders (`Commutes`), then a run ends where it ends whatever the interleaving: its end
depends only on the labels of each process, in their order (`exec_eq_of_filter_eq`).

The proof takes the first label of one run and pulls it to the front of the other run, past the labels of the other
process (`exec_pull`).
-/

namespace Base

variable {σ ε : Type} {step : σ → ε → Option σ} {left : ε → Bool}

/-- Neither process disables a step of the other, and two steps of different processes may be swapped. -/
def Commutes (step : σ → ε → Option σ) (left : ε → Bool) : Prop :=
  ∀ s e f s₁ s₂, left e = true → left f = false → step s e = some s₁ → step s f = some s₂ →
    ∃ s₃, step s₁ f = some s₃ ∧ step s₂ e = some s₃

theorem Commutes.symm (h : Commutes step left) : Commutes step fun e => !left e := by
  intro s e f s₁ s₂ he hf h₁ h₂
  obtain ⟨s₃, h₂', h₁'⟩ := h s f e s₂ s₁ (by simpa using hf) (by simpa using he) h₂ h₁
  exact ⟨s₃, h₁', h₂'⟩

/-- A step that is possible at the start is possible after a run of the other process, with the same outcome as if
it had been taken first. -/
private theorem Commutes.exec_swap (h : Commutes step left) {s s₁ t : σ} {e : ε} {fs : List ε} (he : left e = true)
    (hfs : ∀ f ∈ fs, left f = false) (hs : step s e = some s₁) (ht : exec step s fs = some t) :
    ∃ t', exec step s₁ fs = some t' ∧ step t e = some t' := by
  induction fs generalizing s s₁ with
  | nil =>
    cases ht
    exact ⟨s₁, rfl, hs⟩
  | cons f fs ih =>
    obtain ⟨s₂, hf, ht⟩ := exec_cons_eq_some.1 ht
    obtain ⟨s₃, hf', he'⟩ := h s e f s₁ s₂ he (hfs f List.mem_cons_self) hs hf
    obtain ⟨t', hrun, hlast⟩ := ih (fun f' hf' => hfs f' (List.mem_cons_of_mem f hf')) he' ht
    exact ⟨t', exec_cons_eq_some.2 ⟨s₃, hf', hrun⟩, hlast⟩

/-- The first step of a process may be taken first of all. -/
theorem Commutes.exec_pull (h : Commutes step left) {s s₁ t : σ} {e : ε} {fs gs : List ε} (he : left e = true)
    (hfs : ∀ f ∈ fs, left f = false) (hs : step s e = some s₁) (ht : exec step s (fs ++ e :: gs) = some t) :
    exec step s₁ (fs ++ gs) = some t := by
  obtain ⟨u, hu, ht⟩ := exec_append_eq_some.1 ht
  obtain ⟨v, hv, ht⟩ := exec_cons_eq_some.1 ht
  obtain ⟨v', hrun, hlast⟩ := h.exec_swap he hfs hs hu
  rw [hv, Option.some.injEq] at hlast
  exact exec_append_eq_some.2 ⟨v, hlast ▸ hrun, ht⟩

/-- The first label of one run, and the other run with this label pulled to the front. -/
private theorem Commutes.exec_first (h : Commutes step left) {s s₁ t : σ} {e : ε} {es es' : List ε}
    (he : left e = true) (hs : step s e = some s₁) (ht : exec step s es' = some t)
    (hl : (e :: es).filter left = es'.filter left)
    (hr : (e :: es).filter (fun f => !left f) = es'.filter fun f => !left f) :
    ∃ rest, exec step s₁ rest = some t ∧ es.filter left = rest.filter left ∧
      es.filter (fun f => !left f) = rest.filter fun f => !left f := by
  rw [List.filter_cons_of_pos he] at hl
  obtain ⟨fs, gs, rfl, hfs, -, hgs⟩ := List.filter_eq_cons_iff.1 hl.symm
  have hfs' : ∀ f ∈ fs, left f = false := fun f hf => Bool.not_eq_true _ ▸ hfs f hf
  refine ⟨fs ++ gs, h.exec_pull he hfs' hs ht, ?_, ?_⟩
  · rw [List.filter_append, List.filter_eq_nil_iff.2 hfs, List.nil_append, hgs]
  · rw [List.filter_cons_of_neg (by simp [he]), List.filter_append, List.filter_cons_of_neg (by simp [he])] at hr
    rw [hr, List.filter_append]

/-- The end of a run depends only on what each of the two processes does, in its own order. -/
theorem Commutes.exec_eq_of_filter_eq (h : Commutes step left) {s t t' : σ} {es es' : List ε}
    (ht : exec step s es = some t) (ht' : exec step s es' = some t') (hl : es.filter left = es'.filter left)
    (hr : es.filter (fun f => !left f) = es'.filter fun f => !left f) : t = t' := by
  induction es generalizing s es' with
  | nil =>
    have hnil : es' = [] := List.eq_nil_iff_forall_not_mem.2 fun f hf => by
      cases hleft : left f with
      | true => exact List.filter_eq_nil_iff.1 hl.symm f hf hleft
      | false => exact List.filter_eq_nil_iff.1 hr.symm f hf (by simp [hleft])
    subst hnil
    exact Option.some.inj (ht.symm.trans ht')
  | cons e es ih =>
    obtain ⟨s₁, hs, ht⟩ := exec_cons_eq_some.1 ht
    cases he : left e with
    | true =>
      obtain ⟨rest, hrest, hl', hr'⟩ := h.exec_first he hs ht' hl hr
      exact ih ht hrest hl' hr'
    | false =>
      have hl₂ : (e :: es).filter (fun f => !!left f) = es'.filter fun f => !!left f := by simpa using hl
      obtain ⟨rest, hrest, hr', hl'⟩ := h.symm.exec_first (by simp [he]) hs ht' hr hl₂
      exact ih ht hrest (by simpa using hl') hr'

end Base
