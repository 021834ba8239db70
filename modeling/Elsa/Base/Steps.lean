import Mathlib.Logic.Basic
import Mathlib.Order.Basic

/-!
# Fallible computations and runs

A computation that may fail is an `Except`; `bind_eq_ok` takes a successful composition apart.  A labelled
transition function `step` that may refuse a label gives the states `Reach step guard s₀` that runs from `s₀` pass
through, where `guard` restricts the labels a run may take in a state (`fun _ _ => True` allows all).
`Reach.invariant` is the induction over runs, `Reach.exists_of_exec` evaluates a concrete run.  A loop that does one
step for each of several keys is seen at one key as the step for this key (`foldl_observe`).  A loop whose passes
lower a measure ends (`passes_of_measure`), and a system whose own steps lower a measure comes to rest if it never
gets stuck (`exists_rest`).

An object that is called over and over, and may fail to return, gives the answers of another one that always returns
if a relation between their states is kept by every call (`answers_eq_of_simulates`).  If every call takes from the
front of a list and adds to its end, so do all calls together (`answers_conserve`).
-/

namespace Base

@[simp] theorem ok_bind {ε α β : Type} (a : α) (f : α → Except ε β) : (Except.ok a >>= f) = f a := rfl

@[simp] theorem error_bind {ε α β : Type} (e : ε) (f : α → Except ε β) : (Except.error e >>= f) = .error e := rfl

theorem bind_eq_ok {ε α β : Type} {x : Except ε α} {f : α → Except ε β} {b : β} :
    (x >>= f) = .ok b ↔ ∃ a, x = .ok a ∧ f a = .ok b := by
  cases x with
  | error e =>
    constructor
    · intro h; cases h
    · rintro ⟨a, h, -⟩; cases h
  | ok a =>
    constructor
    · intro h; exact ⟨a, rfl, h⟩
    · rintro ⟨a', h, h'⟩; cases h; exact h'

/-- Two continuations agree if they agree on the value that is passed on. -/
theorem bind_congr_ok {ε α β : Type} {x : Except ε α} {f g : α → Except ε β} (h : ∀ a, x = .ok a → f a = g a) :
    (x >>= f) = (x >>= g) := by
  cases x with
  | error e => rfl
  | ok a => exact h a rfl

/-- The failure of a computation. -/
def errorOf {ε α : Type} : Except ε α → Option ε
  | .error e => some e
  | .ok _ => none

theorem errorOf_eq_some {ε α : Type} {x : Except ε α} {e : ε} : errorOf x = some e ↔ x = .error e := by
  cases x <;> simp [errorOf]

/-- An optional value, or a failure where it is absent. -/
def orFail {ε α : Type} (o : Option α) (e : ε) : Except ε α :=
  match o with
  | some a => .ok a
  | none => .error e

@[simp] theorem orFail_some {ε α : Type} (a : α) (e : ε) : orFail (some a) e = .ok a := rfl

@[simp] theorem orFail_none {ε α : Type} (e : ε) : orFail (none : Option α) e = .error e := rfl

theorem orFail_eq_ok {ε α : Type} {o : Option α} {e : ε} {a : α} : orFail o e = .ok a ↔ o = some a := by
  cases o <;> simp [orFail]

/-- A value that a conversion of a list gives comes from a member of the list. -/
theorem mem_of_mapM {α β : Type} {f : α → Option β} {xs : List α} {ys : List β} (h : xs.mapM f = some ys) {y : β}
    (hy : y ∈ ys) : ∃ x ∈ xs, f x = some y := by
  induction xs generalizing ys with
  | nil =>
    cases h
    cases hy
  | cons x xs ih =>
    simp only [List.mapM_cons, Option.bind_eq_bind, Option.bind_eq_some_iff] at h
    obtain ⟨z, hz, zs, hzs, h⟩ := h
    cases h
    rcases List.mem_cons.1 hy with rfl | hy
    · exact ⟨x, List.mem_cons_self, hz⟩
    · obtain ⟨x', hx', hf⟩ := ih hzs hy
      exact ⟨x', List.mem_cons_of_mem x hx', hf⟩

/-- Go on only if `p` holds. -/
def require {ε : Type} (p : Prop) [Decidable p] (e : ε) : Except ε Unit := if p then .ok () else .error e

@[simp] theorem require_of {ε : Type} {p : Prop} [Decidable p] (h : p) (e : ε) : require p e = .ok () := if_pos h

@[simp] theorem require_of_not {ε : Type} {p : Prop} [Decidable p] (h : ¬ p) (e : ε) : require p e = .error e :=
  if_neg h

theorem require_eq_ok {ε : Type} {p : Prop} [Decidable p] {e : ε} {u : Unit} : require p e = .ok u ↔ p := by
  unfold require; split <;> simp_all

variable {σ ε : Type}

/-- The states that runs from `s₀` pass through when every label meets `guard` in the state it is taken in. -/
inductive Reach (step : σ → ε → Option σ) (guard : σ → ε → Prop) (s₀ : σ) : σ → Prop
  | start : Reach step guard s₀ s₀
  | next {s s' : σ} {e : ε} : Reach step guard s₀ s → guard s e → step s e = some s' → Reach step guard s₀ s'

namespace Reach

variable {step : σ → ε → Option σ} {guard guard' : σ → ε → Prop} {s₀ s : σ}

/-- What holds at the start and is kept by every step holds in every state reached. -/
theorem invariant {I : σ → Prop} (h : Reach step guard s₀ s) (h₀ : I s₀)
    (hstep : ∀ s e s', I s → guard s e → step s e = some s' → I s') : I s := by
  induction h with
  | start => exact h₀
  | next _ hg hs ih => exact hstep _ _ _ ih hg hs

theorem mono (hg : ∀ s e, guard s e → guard' s e) (h : Reach step guard s₀ s) : Reach step guard' s₀ s := by
  induction h with
  | start => exact .start
  | next _ hge hs ih => exact .next ih (hg _ _ hge) hs

end Reach

/-- A run along a list of labels. -/
def exec (step : σ → ε → Option σ) : σ → List ε → Option σ
  | s, [] => some s
  | s, e :: es => (step s e).bind fun s' => exec step s' es

/-- A run along a list of labels that stops at the first label whose guard fails. -/
def execIf (step : σ → ε → Option σ) (guard : σ → ε → Prop) [∀ s e, Decidable (guard s e)] : σ → List ε → Option σ
  | s, [] => some s
  | s, e :: es => if guard s e then (step s e).bind fun s' => execIf step guard s' es else none

theorem Reach.trans_execIf {step : σ → ε → Option σ} {guard : σ → ε → Prop} [∀ s e, Decidable (guard s e)]
    {s₀ s s' : σ} {es : List ε} (h : Reach step guard s₀ s) (he : execIf step guard s es = some s') :
    Reach step guard s₀ s' := by
  induction es generalizing s with
  | nil => cases he; exact h
  | cons e es ih =>
    unfold execIf at he
    split at he
    · rename_i hg
      cases hs : step s e with
      | none => rw [hs] at he; cases he
      | some t => rw [hs] at he; exact ih (.next h hg hs) he
    · cases he

theorem Reach.trans_exec {step : σ → ε → Option σ} {s₀ s s' : σ} {es : List ε}
    (h : Reach step (fun _ _ => True) s₀ s) (he : exec step s es = some s') :
    Reach step (fun _ _ => True) s₀ s' := by
  induction es generalizing s with
  | nil => cases he; exact h
  | cons e es ih =>
    unfold exec at he
    cases hs : step s e with
    | none => rw [hs] at he; cases he
    | some t => rw [hs] at he; exact ih (.next h trivial hs) he

/-- A concrete run that ends in a state with a property. -/
theorem Reach.exists_of_execIf {step : σ → ε → Option σ} {guard : σ → ε → Prop} [∀ s e, Decidable (guard s e)]
    {s₀ : σ} {es : List ε} {p : σ → Bool} (h : (execIf step guard s₀ es).any p = true) :
    ∃ s, Reach step guard s₀ s ∧ p s = true := by
  obtain ⟨s, hs, hp⟩ := (Option.any_eq_true _ _).1 h
  exact ⟨s, Reach.start.trans_execIf hs, hp⟩

theorem Reach.exists_of_exec {step : σ → ε → Option σ} {s₀ : σ} {es : List ε} {p : σ → Bool}
    (h : (exec step s₀ es).any p = true) : ∃ s, Reach step (fun _ _ => True) s₀ s ∧ p s = true := by
  obtain ⟨s, hs, hp⟩ := (Option.any_eq_true _ _).1 h
  exact ⟨s, Reach.start.trans_exec hs, hp⟩

section runs

variable {step : σ → ε → Option σ}

@[simp] theorem exec_nil (s : σ) : exec step s [] = some s := rfl

theorem exec_cons_eq_some {s t : σ} {e : ε} {es : List ε} :
    exec step s (e :: es) = some t ↔ ∃ s', step s e = some s' ∧ exec step s' es = some t := by
  rw [exec, Option.bind_eq_some_iff]

theorem exec_append_eq_some {s t : σ} {es fs : List ε} :
    exec step s (es ++ fs) = some t ↔ ∃ s', exec step s es = some s' ∧ exec step s' fs = some t := by
  induction es generalizing s with
  | nil => simp
  | cons e es ih =>
    simp only [List.cons_append, exec_cons_eq_some, ih]
    constructor
    · rintro ⟨s₁, h₁, s', h', ht⟩
      exact ⟨s', ⟨s₁, h₁, h'⟩, ht⟩
    · rintro ⟨s', ⟨s₁, h₁, h'⟩, ht⟩
      exact ⟨s₁, h₁, s', h', ht⟩

/-- Labels that every state allows lead from a state that is reached to another one. -/
theorem Reach.trans_exec_of {guard : σ → ε → Prop} {s₀ s t : σ} {es : List ε} (h : Reach step guard s₀ s)
    (hg : ∀ e ∈ es, ∀ s, guard s e) (he : exec step s es = some t) : Reach step guard s₀ t := by
  induction es generalizing s with
  | nil =>
    cases he
    exact h
  | cons e es ih =>
    obtain ⟨s', hs, he⟩ := exec_cons_eq_some.1 he
    exact ih (.next h (hg e List.mem_cons_self s) hs) (fun e' he' => hg e' (List.mem_cons_of_mem e he')) he

/-- A system that does in encoded states what another one does, one step at a time, does so over whole runs. -/
theorem exec_map_of_encodes {τ κ : Type} {step' : τ → κ → Option τ} {f : σ → τ} {g : ε → κ} {I : σ → Prop}
    {ok : ε → Prop} (henc : ∀ s e, I s → ok e → step' (f s) (g e) = (step s e).map f)
    (hI : ∀ s e s', I s → ok e → step s e = some s' → I s') {s : σ} {es : List ε} (hs : I s) (hes : ∀ e ∈ es, ok e) :
    exec step' (f s) (es.map g) = (exec step s es).map f := by
  induction es generalizing s with
  | nil => rfl
  | cons e es ih =>
    have he := hes e List.mem_cons_self
    rw [List.map_cons, exec, exec, henc s e hs he]
    cases hstep : step s e with
    | none => rfl
    | some s' => exact ih (hI s e s' hs he hstep) fun e' he' => hes e' (List.mem_cons_of_mem e he')

/-- What every step with an allowed label keeps holds after a run with such labels. -/
theorem exec_invariant {I : σ → Prop} {p : ε → Prop} (hstep : ∀ s e s', I s → p e → step s e = some s' → I s')
    {s t : σ} {es : List ε} (hs : I s) (hes : ∀ e ∈ es, p e) (h : exec step s es = some t) : I t := by
  induction es generalizing s with
  | nil =>
    cases h
    exact hs
  | cons e es ih =>
    obtain ⟨s', he, h⟩ := exec_cons_eq_some.1 h
    exact ih (hstep s e s' hs (hes e List.mem_cons_self) he) (fun e' he' => hes e' (List.mem_cons_of_mem e he')) h

/-- If every step adds to the end of the contents, up to a preorder that appending keeps, so does a run.  The
preorder is equality where nothing is lost and `List.Sublist` where something may be. -/
theorem exec_contents {ω : Type} {R : List ω → List ω → Prop} (hrefl : ∀ xs, R xs xs)
    (htrans : ∀ {xs ys zs}, R xs ys → R ys zs → R xs zs) (happend : ∀ {xs ys} zs, R xs ys → R (xs ++ zs) (ys ++ zs))
    {contents : σ → List ω} {added : ε → List ω} {p : ε → Prop}
    (hstep : ∀ s e s', p e → step s e = some s' → R (contents s') (contents s ++ added e)) {s t : σ} {es : List ε}
    (hes : ∀ e ∈ es, p e) (h : exec step s es = some t) : R (contents t) (contents s ++ es.flatMap added) := by
  induction es generalizing s with
  | nil =>
    cases h
    rw [List.flatMap_nil, List.append_nil]
    exact hrefl _
  | cons e es ih =>
    obtain ⟨s', he, h⟩ := exec_cons_eq_some.1 h
    have hrest := ih (fun e' he' => hes e' (List.mem_cons_of_mem e he')) h
    rw [List.flatMap_cons, ← List.append_assoc]
    exact htrans hrest (happend _ (hstep s e s' (hes e List.mem_cons_self) he))

/-! ### Runs that come to rest -/

variable {I rest : σ → Prop} {internal : ε → Prop} {measure : σ → Nat}

/-- Steps that lower a measure cannot go on for longer than it says. -/
theorem exec_length_le (hdec : ∀ s e s', I s → internal e → step s e = some s' → I s' ∧ measure s' < measure s)
    {s t : σ} {es : List ε} (hs : I s) (hes : ∀ e ∈ es, internal e) (ht : exec step s es = some t) :
    es.length ≤ measure s := by
  induction es generalizing s with
  | nil => exact Nat.zero_le _
  | cons e es ih =>
    obtain ⟨s', hstep, ht⟩ := exec_cons_eq_some.1 ht
    obtain ⟨hs', hlt⟩ := hdec s e s' hs (hes e List.mem_cons_self) hstep
    have hle := ih hs' (fun e' he' => hes e' (List.mem_cons_of_mem e he')) ht
    rw [List.length_cons]
    omega

/-- If such a step is possible wherever the system is not at rest, the system comes to rest. -/
theorem exists_rest (hdec : ∀ s e s', I s → internal e → step s e = some s' → I s' ∧ measure s' < measure s)
    (hon : ∀ s, I s → rest s ∨ ∃ e s', internal e ∧ step s e = some s') {s : σ} (hs : I s) :
    ∃ es t, (∀ e ∈ es, internal e) ∧ exec step s es = some t ∧ rest t := by
  induction hn : measure s using Nat.strongRecOn generalizing s with
  | _ n ih =>
    rcases hon s hs with hrest | ⟨e, s', he, hstep⟩
    · exact ⟨[], s, fun _ hmem => (by cases hmem), rfl, hrest⟩
    · obtain ⟨hs', hlt⟩ := hdec s e s' hs he hstep
      obtain ⟨es, t, hes, hrun, hrest⟩ := ih (measure s') (hn ▸ hlt) hs' rfl
      exact ⟨e :: es, t, List.forall_mem_cons.2 ⟨he, hes⟩, exec_cons_eq_some.2 ⟨s', hstep, hrun⟩, hrest⟩

end runs

/-! ### Loops over different keys -/

/-- Steps for other keys are not seen. -/
private theorem foldl_unseen {ι ω : Type} {f : σ → ι → σ} (obs : σ → ω) {j : ι}
    (hne : ∀ s i, i ≠ j → obs (f s i) = obs s) {is : List ι} (hj : j ∉ is) (s : σ) : obs (is.foldl f s) = obs s := by
  induction is generalizing s with
  | nil => rfl
  | cons i is ih =>
    rw [List.foldl_cons, ih fun hm => hj (List.mem_cons_of_mem _ hm)]
    exact hne s i fun he => hj (he ▸ List.mem_cons_self)

/-- Of steps for different keys, an observation that belongs to one key sees the step for this key. -/
theorem foldl_observe {ι ω : Type} {f : σ → ι → σ} (obs : σ → ω) (g : ω → ω) {j : ι}
    (hself : ∀ s, obs (f s j) = g (obs s)) (hne : ∀ s i, i ≠ j → obs (f s i) = obs s) {is : List ι} (hnd : is.Nodup)
    (hj : j ∈ is) (s : σ) : obs (is.foldl f s) = g (obs s) := by
  induction is generalizing s with
  | nil => cases hj
  | cons i is ih =>
    obtain ⟨hi, hrest⟩ := List.nodup_cons.1 hnd
    rw [List.foldl_cons]
    rcases List.mem_cons.1 hj with rfl | hj
    · rw [foldl_unseen obs hne hi, hself]
    · rw [ih hrest hj, hne s i fun he => hi (he ▸ hj)]

/-! ### Loops that end -/

/-- At most `n` passes of a loop; a pass goes on with another state or leaves the loop with a value. -/
def passes {β : Type} (pass : σ → σ ⊕ β) : Nat → σ → Option β
  | 0, _ => none
  | n + 1, s =>
    match pass s with
    | .inl s' => passes pass n s'
    | .inr b => some b

/-- A loop whose passes lower a measure ends, with the value that all its passes lead to. -/
theorem passes_of_measure {β : Type} {pass : σ → σ ⊕ β} (measure : σ → Nat) (result : σ → β)
    (hon : ∀ s s', pass s = .inl s' → measure s' < measure s ∧ result s = result s')
    (hleave : ∀ s b, pass s = .inr b → result s = b) {n : Nat} {s : σ} (h : measure s < n) :
    passes pass n s = some (result s) := by
  induction n generalizing s with
  | zero => omega
  | succ n ih =>
    unfold passes
    cases hpass : pass s with
    | inl s' =>
      obtain ⟨hlt, hresult⟩ := hon s s' hpass
      rw [hresult]
      exact ih (by omega)
    | inr b => rw [hleave s b hpass]

/-! ### Calls and their answers -/

section

variable {τ κ ρ : Type}

/-- The answers to some calls, one after the other, and the state after them; `none` if a call does not return. -/
def answers (call : σ → κ → Option (ρ × σ)) : σ → List κ → Option (List ρ × σ)
  | s, [] => some ([], s)
  | s, c :: cs => (call s c).bind fun r => (answers call r.2 cs).map fun rs => (r.1 :: rs.1, rs.2)

section

variable {call : σ → κ → Option (ρ × σ)}

theorem answers_cons_eq_some {s t : σ} {c : κ} {cs : List κ} {rs : List ρ} : answers call s (c :: cs) = some (rs, t) ↔
    ∃ r s' rs', call s c = some (r, s') ∧ answers call s' cs = some (rs', t) ∧ rs = r :: rs' := by
  simp only [answers, Option.bind_eq_some_iff, Option.map_eq_some_iff, Prod.mk.injEq, Prod.exists]
  constructor
  · rintro ⟨r, s', hc, rs', t', hcs, rfl, rfl⟩
    exact ⟨r, s', rs', hc, hcs, rfl⟩
  · rintro ⟨r, s', rs', hc, hcs, rfl⟩
    exact ⟨r, s', hc, rs', t, hcs, rfl, rfl⟩

/-- What every allowed call keeps holds after such calls. -/
theorem answers_invariant {I : σ → Prop} {p : κ → Prop}
    (hcall : ∀ s c r s', I s → p c → call s c = some (r, s') → I s') {s t : σ} {cs : List κ} {rs : List ρ}
    (hs : I s) (hcs : ∀ c ∈ cs, p c) (h : answers call s cs = some (rs, t)) : I t := by
  induction cs generalizing s rs with
  | nil =>
    cases h
    exact hs
  | cons c cs ih =>
    obtain ⟨r, s', rs', hc, hrest, -⟩ := answers_cons_eq_some.1 h
    exact ih (hcall s c r s' hs (hcs c List.mem_cons_self) hc)
      (fun c' hc' => hcs c' (List.mem_cons_of_mem c hc')) hrest

/-- If every call takes its answer from the front of the contents and adds to their end, the answers and the
contents are together what was there and what was added. -/
theorem answers_conserve {ω : Type} {contents : σ → List ω} {added : κ → List ω} {given : ρ → List ω}
    (hcall : ∀ s c r s', call s c = some (r, s') → given r ++ contents s' = contents s ++ added c) {s t : σ}
    {cs : List κ} {rs : List ρ} (h : answers call s cs = some (rs, t)) :
    rs.flatMap given ++ contents t = contents s ++ cs.flatMap added := by
  induction cs generalizing s rs with
  | nil =>
    cases h
    exact (List.append_nil _).symm
  | cons c cs ih =>
    obtain ⟨r, s', rs', hc, hcs, rfl⟩ := answers_cons_eq_some.1 h
    rw [List.flatMap_cons, List.append_assoc, ih hcs, ← List.append_assoc, hcall s c r s' hc, List.append_assoc,
      List.flatMap_cons]

end

/-- The answers of an object whose calls all return. -/
def replies (call : τ → κ → ρ × τ) : τ → List κ → List ρ × τ
  | t, [] => ([], t)
  | t, c :: cs => ((call t c).1 :: (replies call (call t c).2 cs).1, (replies call (call t c).2 cs).2)

theorem answers_eq_of_simulates {impl : σ → κ → Option (ρ × σ)} {spec : τ → κ → ρ × τ} {R : σ → τ → Prop}
    (hcall : ∀ s t c, R s t → ∃ s', impl s c = some ((spec t c).1, s') ∧ R s' (spec t c).2) {s : σ} {t : τ}
    (h : R s t) (cs : List κ) :
    ∃ s', answers impl s cs = some ((replies spec t cs).1, s') ∧ R s' (replies spec t cs).2 := by
  induction cs generalizing s t with
  | nil => exact ⟨s, rfl, h⟩
  | cons c cs ih =>
    obtain ⟨s₁, hc, h₁⟩ := hcall s t c h
    obtain ⟨s', hcs, h'⟩ := ih h₁
    refine ⟨s', ?_, h'⟩
    rw [answers, hc, Option.bind_some, hcs]
    rfl

end

end Base
