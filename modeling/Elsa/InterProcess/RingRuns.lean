import Elsa.InterProcess.RingInvariant

/-!
# Runs of the ring buffer

The invariant holds as long as the number of claims plus the capacity is at most `2 ^ 63`, and it gives what the
buffer promises (`correct_of_reachable`).  The bound cannot be `2 ^ 63` claims alone: sequence numbers run ahead of
the claims by the capacity, and a producer that loaded position 0 and then slept finds a difference of `-2 ^ 63`
when it wakes up (`sleeper_finds_full`).
-/

namespace Elsa.MpscRingBuffer

open Base

section

variable {ι T : Type} {capacity : Nat}

namespace Inv

theorem start (hc : IsCapacity capacity) (memory : Nat → T) : Inv capacity (State.start memory : State ι T) where
  claimed_le := Nat.zero_le _
  published_lt _ hq := by cases hq
  released_published _ hq := by cases hq
  popped_eq := rfl
  head := rfl
  sequence q _ hq := by
    have hq : q < capacity := Nat.zero_add capacity ▸ hq
    exact (hc.slot_eq q).trans (Nat.mod_eq_of_lt hq)
  data _ hq := by cases hq
  push _ := trivial
  pop := ⟨rfl, rfl⟩
  distinct _ _ _ _ hw := by cases hw

variable [DecidableEq ι] {s s' : State ι T}

theorem step (h : Inv capacity s) (hc : IsCapacity capacity) {e : Event ι T} (hs : s.step capacity e = some s')
    (hb : s'.claims.length + capacity ≤ 9223372036854775808) : Inv capacity s' := by
  cases e with
  | callPush p value =>
    simp only [State.step] at hs
    split at hs
    · cases hs
      exact h.setPush (.loadHead value) trivial rfl
    · cases hs
  | push p fails => exact h.pushStep hc hs hb
  | callPop =>
    have hpop := h.pop
    simp only [State.step] at hs
    split at hs
    · next hpc =>
      rw [hpc] at hpop
      cases hs
      exact h.setPop hpop
    · cases hs
  | pop => exact h.popStep hc hs hb

end Inv

variable [DecidableEq ι]

private theorem claims_le_of_step {s s' : State ι T} {e : Event ι T} (hs : s.step capacity e = some s') :
    s.claims.length ≤ s'.claims.length := by
  cases e with
  | callPush p value =>
    simp only [State.step] at hs
    split at hs <;> cases hs
    exact le_refl _
  | push p fails =>
    simp only [State.step, State.pushStep] at hs
    split at hs <;> (try split at hs) <;> cases hs <;> simp [State.setPush]
  | callPop =>
    simp only [State.step] at hs
    split at hs <;> cases hs
    exact le_refl _
  | pop =>
    simp only [State.step, State.popStep] at hs
    split at hs <;> cases hs <;> exact le_refl _

private theorem inv_of_reachable (hc : IsCapacity capacity) {memory : Nat → T} {s : State ι T}
    (h : State.Reachable capacity memory s) (hb : s.claims.length + capacity ≤ 9223372036854775808) :
    Inv capacity s := by
  refine h.invariant (I := fun s => s.claims.length + capacity ≤ 9223372036854775808 → Inv capacity s)
    (fun _ => Inv.start hc memory) (fun s e s' ih _ hs hb => ?_) hb
  have hle := claims_le_of_step hs
  exact (ih (by omega)).step hc hs hb

private theorem Inv.correct {s : State ι T} (h : Inv capacity s) (hc : IsCapacity capacity)
    (hb : s.claims.length + capacity ≤ 9223372036854775808) : Correct capacity s where
  writers p p' w w' hne hw hw' := h.writers hc hne hw hw'
  reader p w q hw hq := by
    have hpop := h.pop
    have hin : q = s.released ∧ s.released ∈ s.published := by
      cases hpc : s.pop with
      | readData position =>
        rw [hpc] at hpop hq
        cases hq
        exact ⟨hpop.1, hpop.2.1⟩
      | storeSequence position result =>
        rw [hpc] at hpop hq
        cases hq
        exact ⟨hpop.1, hpop.2.1⟩
      | _ =>
        rw [hpc] at hq
        cases hq
    obtain ⟨rfl, hpub⟩ := hin
    exact h.slot_ne hc (h.holds hw) (le_refl _) (h.published_window hpub) fun heq => (h.holds hw).2 (heq ▸ hpub)
  won := ⟨h.head, fun p w hw => (h.holds hw).1⟩
  popped := h.popped_eq ▸ List.take_prefix _ _
  none_only position s' hpc hs hnone := by
    have hpop := h.pop
    rw [hpc] at hpop
    obtain ⟨rfl, -, hlen⟩ := hpop
    simp only [State.step, State.popStep, hpc, Option.some.injEq] at hs
    rw [← hs] at hnone
    rw [hlen, ← h.difference_neg_iff hc hb]
    by_contra hd
    simp only [if_neg hd] at hnone
    cases hnone
  false_only p fails value position s' hpc hs hfalse := by
    have hp := h.push p
    rw [hpc] at hp
    simp only [State.step, State.pushStep, hpc, Option.some.injEq] at hs
    rw [← hs, State.setPush_push_self] at hfalse
    refine h.full_of_difference_neg hc hb hp ?_
    by_contra hd
    simp only [if_neg hd] at hfalse
    split at hfalse <;> cases hfalse

/-- In every run with at most `2 ^ 63 - capacity` claims. -/
theorem correct_of_reachable {k : Nat} (hk : 1 ≤ k) {memory : Nat → T} {s : State ι T}
    (h : State.Reachable (2 ^ k) memory s) (hb : s.claims.length + 2 ^ k ≤ 2 ^ 63) : Correct (2 ^ k) s := by
  have hc : IsCapacity (2 ^ k) := ⟨k, hk, rfl⟩
  exact (inv_of_reachable hc h hb).correct hc hb

end

/-- Two producers push, the second one first, and the consumer pops once. -/
def sampleRun : List (Event Bool Nat) :=
  [.callPush false 7, .callPush true 8, .push false false, .push true false, .push false false, .push true false,
    .push true true, .push true false, .push true false, .push false false, .push true false, .push false false,
    .push true false, .push false false, .push false false, .callPop, .pop, .pop, .pop, .pop, .pop, .pop]

theorem correct_sampleRun : ∃ s : State Bool Nat, State.Reachable (2 ^ 1) (fun _ => 0) s ∧ s.claims = [8, 7] ∧
    s.popped = [8] ∧ Correct (2 ^ 1) s := by
  have hrun : (exec (State.step (2 ^ 1)) (State.start fun _ => 0) sampleRun).any
      (fun s => decide (s.claims = [8, 7] ∧ s.popped = [8])) = true := by decide +kernel
  obtain ⟨s, hreach, h⟩ := Reach.exists_of_exec hrun
  obtain ⟨hclaims, hpopped⟩ := of_decide_eq_true h
  exact ⟨s, hreach, hclaims, hpopped, correct_of_reachable (le_refl 1) hreach (by rw [hclaims]; decide)⟩

/-! ### A producer that sleeps -/

theorem difference_self (n : Nat) : difference n n = 0 := by
  unfold difference
  rw [Int.sub_self]
  rfl

section

variable {ι T : Type} [DecidableEq ι] {s : State ι T} {capacity n : Nat}

/-- A push without interruption. -/
def pushEvents (p : ι) (value : T) : List (Event ι T) := .callPush p value :: List.replicate 6 (.push p false)

/-- A pop without interruption. -/
def popEvents : List (Event ι T) := .callPop :: List.replicate 6 .pop

/-- A state after a push that won position `n`. -/
def State.afterPush (capacity n : Nat) (p : ι) (value : T) (s : State ι T) : State ι T :=
  { s with
    ring := { s.ring with
      head := size (n + 1)
      sequence := Function.update s.ring.sequence (slot capacity n) (size (n + 1))
      data := Function.update s.ring.data (slot capacity n) value }
    push := Function.update s.push p .idle
    claims := s.claims ++ [value]
    published := n :: s.published }

/-- A state after a pop of position `n`. -/
def State.afterPop (capacity n : Nat) (s : State ι T) : State ι T :=
  { s with
    ring := { s.ring with
      tail := size (n + 1)
      sequence := Function.update s.ring.sequence (slot capacity n) (size (n + capacity)) }
    released := s.released + 1
    popped := s.popped ++ [s.ring.data (slot capacity n)] }

private theorem exec_pushEvents {p : ι} (hp : s.push p = .idle) (hhead : s.ring.head = n)
    (hseq : s.ring.sequence (slot capacity n) = n) (value : T) :
    exec (State.step capacity) s (pushEvents p value) = some (s.afterPush capacity n p value) := by
  simp only [pushEvents, List.replicate, exec, State.step, hp, State.pushStep, State.setPush, Function.update_self,
    hhead, hseq, difference_self, if_true, Function.update_idem, Option.bind_some, and_self, State.afterPush]

private theorem exec_popEvents (hp : s.pop = .idle) (htail : s.ring.tail = n)
    (hseq : s.ring.sequence (slot capacity n) = size (n + 1)) :
    exec (State.step capacity) s popEvents = some (s.afterPop capacity n) := by
  simp only [popEvents, List.replicate, exec, State.step, hp, State.popStep, htail, hseq, difference_self,
    lt_irrefl, if_false, Option.bind_some, Option.toList_some, State.afterPop]

end

/-- A producer has loaded position 0 and sleeps, while `n` values went through the empty buffer. -/
structure Round (n : Nat) (s : State Bool Unit) : Prop where
  head : s.ring.head = n
  tail : s.ring.tail = n
  sequence : ∀ q, n ≤ q → q < n + 4 → s.ring.sequence (slot 4 q) = q
  sleeper : s.push false = .loadSequence () 0
  producer : s.push true = .idle
  consumer : s.pop = .idle
  claims : s.claims.length = n
  released : s.released = n

private theorem isCapacity_four : IsCapacity 4 := ⟨2, by decide, rfl⟩

/-- One more value goes through. -/
theorem Round.next {n : Nat} {s : State Bool Unit} {memory : Nat → Unit} (h : Round n s)
    (hn : n + 4 ≤ 9223372036854775808) (hreach : State.Reachable 4 memory s) :
    ∃ s', State.Reachable 4 memory s' ∧ Round (n + 1) s' := by
  have hpush := exec_pushEvents h.producer h.head (h.sequence n (le_refl n) (by omega)) ()
  have hpop : exec (State.step 4) (s.afterPush 4 n true ()) popEvents =
      some ((s.afterPush 4 n true ()).afterPop 4 n) :=
    exec_popEvents h.consumer h.tail (Function.update_self _ _ _)
  refine ⟨_, (hreach.trans_exec hpush).trans_exec hpop, size_eq (by omega), size_eq (by omega), fun q h1 h2 => ?_,
    ?_, ?_, h.consumer, ?_, congrArg (· + 1) h.released⟩
  · show Function.update (Function.update s.ring.sequence (slot 4 n) (size (n + 1))) (slot 4 n) (size (n + 4))
        (slot 4 q) = q
    rw [Function.update_idem]
    by_cases hq : q = n + 4
    · rw [hq, isCapacity_four.slot_add, Function.update_self, size_eq (by omega)]
    · have hne : slot 4 q ≠ slot 4 n := fun heq => by
        have := isCapacity_four.slot_inj (r := n) (by omega) (by omega) (le_refl n) (by omega) heq
        omega
      rw [Function.update_of_ne hne, h.sequence q (by omega) (by omega)]
  · show Function.update s.push true .idle false = .loadSequence () 0
    rw [Function.update_of_ne (by decide), h.sleeper]
  · show Function.update s.push true .idle true = .idle
    rw [Function.update_self]
  · show (s.claims ++ [()]).length = n + 1
    rw [List.length_append, h.claims]
    rfl

private theorem exists_round {n : Nat} (hn : n + 4 ≤ 9223372036854775809) :
    ∃ s : State Bool Unit, State.Reachable 4 (fun _ => ()) s ∧ Round n s := by
  induction n with
  | zero =>
    have hrun : exec (State.step 4) (State.start fun _ => () : State Bool Unit)
        [.callPush false (), .push false false] =
        some ((State.start fun _ => ()).setPush false (.loadSequence () 0)) := by
      simp only [exec, State.step, State.start, State.setPush, State.pushStep, Function.update_self,
        Function.update_idem, Option.bind_some, Ring.init]
    refine ⟨_, Reach.start.trans_exec hrun, rfl, rfl, fun q _ hq => ?_, rfl, rfl, rfl, rfl, rfl⟩
    have hq : q < 4 := by omega
    exact (isCapacity_four.slot_eq q).trans (Nat.mod_eq_of_lt hq)
  | succ n ih =>
    obtain ⟨s, hreach, hs⟩ := ih (by omega)
    exact hs.next (by omega) hreach

/-- After `2 ^ 63 - 3` pushes and pops the sleeping producer returns `false`, although the buffer is empty. -/
theorem sleeper_finds_full : ∃ s : State Bool Unit, State.Reachable (2 ^ 2) (fun _ => ()) s ∧
    s.claims.length + 1 < 2 ^ 63 ∧ s.released = s.claims.length ∧ ¬ Correct (2 ^ 2) s := by
  obtain ⟨s, hreach, hs⟩ := exists_round (n := 9223372036854775805) (le_refl _)
  refine ⟨s, hreach, by rw [hs.claims]; decide, hs.released.trans hs.claims.symm, fun hcorrect => ?_⟩
  have hseq : s.ring.sequence (slot (2 ^ 2) 0) = 9223372036854775808 :=
    hs.sequence 9223372036854775808 (by decide) (by decide)
  have hstep : s.step (2 ^ 2) (.push false false) = some (s.setPush false (.returned false)) := by
    have hneg : difference 9223372036854775808 0 < 0 := by decide
    simp only [State.step, State.pushStep, hs.sleeper, hseq, if_pos hneg, if_neg hneg.ne]
  have hfull := hcorrect.false_only false false () 0 _ hs.sleeper hstep (s.setPush_push_self _ _)
  rw [hs.released, hs.claims] at hfull
  omega

end Elsa.MpscRingBuffer
