import Elsa.InterProcess.RingRuns

/-!
# The ring buffer as a queue

Calls that do not overlap, from `init` on: a thread runs `try_push` or `try_pop` to its end before the next call
begins.  A weak compare-exchange may still fail any number of times, and then the loop of `try_push` goes round once
more.

A capacity of at least two gives a queue that holds that many values (`HoldsQueue.call`), however often the positions
wrap around.  After `2 ^ 63` pushes this rests on a signed difference that wraps (`difference`).  With a capacity of
one the sequence number that says "free" for the next position is the one that says "in use" for the last position, so
that a second push overwrites the value of the first (`refines_iff`, `single_slot_overwrites`).
-/

namespace Elsa.MpscRingBuffer

open Base

/-- The `static_assert`s, for a capacity of type `std::size_t`. -/
structure Admitted (capacity : Nat) : Prop where
  power : capacity &&& (capacity - 1) = 0
  pos : 0 < capacity
  fits : capacity < 18446744073709551616

/-- A call, with the number of times that its compare-exchange fails although the values agree. -/
inductive Call (ι T : Type)
  | tryPush (p : ι) (value : T) (spurious : Nat)
  | tryPop
deriving DecidableEq

inductive Answer (T : Type)
  | pushed (result : Bool)
  | popped (result : Option T)
deriving DecidableEq

section

variable {ι T : Type} [DecidableEq ι] (capacity : Nat)

/-! ### The calls -/

namespace State

/-- `try_push` from where its thread is, for so many steps. -/
def finishPush (p : ι) : Nat → Nat → State ι T → Option (Bool × State ι T)
  | 0, _, _ => none
  | fuel + 1, spurious, s =>
    match s.push p with
    | .returned result => (s.pushStep capacity p false).map fun s' => (result, s')
    | .compareExchange _ _ =>
      (s.pushStep capacity p (decide (0 < spurious))).bind (finishPush p fuel (spurious - 1))
    | _ => (s.pushStep capacity p false).bind (finishPush p fuel spurious)

/-- `try_pop` from where the consumer is, for so many steps. -/
def finishPop : Nat → State ι T → Option (Option T × State ι T)
  | 0, _ => none
  | fuel + 1, s =>
    match s.pop with
    | .returned result => (s.popStep capacity).map fun s' => (result, s')
    | _ => (s.popStep capacity).bind (finishPop fuel)

/-- A whole call.  A push takes six steps, and two more for each time that its compare-exchange fails. -/
def call (s : State ι T) : Call ι T → Option (Answer T × State ι T)
  | .tryPush p value spurious =>
    ((s.step capacity (.callPush p value)).bind (finishPush capacity p (2 * spurious + 6) spurious)).map fun r =>
      (.pushed r.1, r.2)
  | .tryPop => ((s.step capacity .callPop).bind (finishPop capacity 6)).map fun r => (.popped r.1, r.2)

end State

/-- `size`. -/
def Ring.count (ring : Ring T) : Nat := (ring.head + 18446744073709551616 - ring.tail) % 18446744073709551616

/-- `empty`. -/
def Ring.empty (ring : Ring T) : Bool := ring.head = ring.tail

/-- A queue of at most `capacity` values, the oldest one first. -/
def queueCall (queue : List T) : Call ι T → Answer T × List T
  | .tryPush _ value _ =>
    if queue.length < capacity then (.pushed true, queue ++ [value]) else (.pushed false, queue)
  | .tryPop => (.popped queue.head?, queue.tail)

/-- The calls return what the queue returns, and `size` and `empty` tell how many values it holds. -/
def Refines (memory : Nat → T) (calls : List (Call ι T)) : Prop :=
  ∃ s : State ι T, answers (State.call capacity) (.start memory) calls =
      some ((replies (queueCall capacity) [] calls).1, s) ∧
    s.ring.count = (replies (queueCall (ι := ι) capacity) ([] : List T) calls).2.length ∧
    s.ring.empty = (replies (queueCall (ι := ι) capacity) ([] : List T) calls).2.isEmpty

end

/-! ### Numbers that wrap around -/

section

variable {capacity : Nat}

private theorem Admitted.exists_pow (h : Admitted capacity) : ∃ k ≤ 63, capacity = 2 ^ k := by
  obtain ⟨k, hk⟩ := (Nat.and_sub_one_eq_zero_iff_isPowerOfTwo (Nat.pos_iff_ne_zero.1 h.pos)).1 h.power
  refine ⟨k, ?_, hk⟩
  by_contra hlt
  have : 2 ^ 64 ≤ 2 ^ k := Nat.pow_le_pow_right (by decide) (by omega)
  have := h.fits
  omega

private theorem Admitted.isCapacity (h : Admitted capacity) (htwo : 2 ≤ capacity) : IsCapacity capacity := by
  obtain ⟨k, -, rfl⟩ := h.exists_pow
  refine ⟨k, ?_, rfl⟩
  by_contra hk
  rw [show k = 0 by omega] at htwo
  exact absurd htwo (by decide)

theorem Admitted.le (h : Admitted capacity) : capacity ≤ 9223372036854775808 := by
  obtain ⟨k, hk, rfl⟩ := h.exists_pow
  exact Nat.pow_le_pow_right (by decide) hk

private theorem Admitted.slot_size (h : Admitted capacity) (htwo : 2 ≤ capacity) (n : Nat) :
    slot capacity (size n) = slot capacity n := by
  have hc := h.isCapacity htwo
  obtain ⟨k, hk, rfl⟩ := h.exists_pow
  rw [hc.slot_eq, hc.slot_eq]
  exact Nat.mod_mod_of_dvd n (Nat.pow_dvd_pow 2 (show k ≤ 64 by omega))

private theorem size_size_add (n m : Nat) : size (size n + m) = size (n + m) := Nat.mod_add_mod n _ m

private theorem difference_size (a b : Nat) :
    difference (size a) (size b) = Int.bmod ((a : Int) - b) 18446744073709551616 := by
  unfold difference size
  rw [Int.natCast_emod, Int.natCast_emod, Int.sub_bmod, Int.sub_bmod (a : Int)]
  simp only [Nat.cast_ofNat]
  rw [← Int.emod_bmod (a : Int), ← Int.emod_bmod (b : Int)]
  rfl

private theorem difference_size_eq {a b : Nat} {d : Int} (hd : (a : Int) - b = d) (h1 : -9223372036854775808 ≤ d)
    (h2 : d < 9223372036854775808) : difference (size a) (size b) = d := by
  rw [difference_size, hd]
  apply Int.bmod_eq_of_le_mul_two <;> push_cast <;> omega

end

/-! ### The queue in the ring -/

section

variable {ι T : Type} {capacity : Nat} {s : State ι T}

/-- Between two calls the ring holds a queue whose oldest value has position `front`. -/
structure HoldsQueue (capacity : Nat) (s : State ι T) (front : Nat) (queue : List T) : Prop where
  push : ∀ p, s.push p = .idle
  pop : s.pop = .idle
  length_le : queue.length ≤ capacity
  head : s.ring.head = size (front + queue.length)
  tail : s.ring.tail = size front
  sequence : ∀ i < capacity, s.ring.sequence (slot capacity (front + i)) =
    if i < queue.length then size (front + i + 1) else size (front + i)
  data : ∀ i value, queue[i]? = some value → s.ring.data (slot capacity (front + i)) = value

namespace HoldsQueue

variable {front : Nat} {queue : List T}

theorem start (h : Admitted capacity) (htwo : 2 ≤ capacity) (memory : Nat → T) :
    HoldsQueue capacity (State.start memory : State ι T) 0 [] where
  push _ := rfl
  pop := rfl
  length_le := Nat.zero_le _
  head := rfl
  tail := rfl
  sequence i hi := by
    have hslot : slot capacity (0 + i) = i := by
      rw [(h.isCapacity htwo).slot_eq, Nat.zero_add, Nat.mod_eq_of_lt hi]
    have hsize : size (0 + i) = i := by
      have := h.fits
      rw [Nat.zero_add]
      exact Nat.mod_eq_of_lt (by omega)
    rw [hslot, List.length_nil, if_neg (Nat.not_lt_zero i), hsize]
    rfl
  data i value hi := by cases hi

theorem count (h : HoldsQueue capacity s front queue) (ha : Admitted capacity) : s.ring.count = queue.length := by
  have hlen := h.length_le
  have hfits := ha.fits
  rw [Ring.count, h.head, h.tail]
  unfold size
  omega

theorem empty (h : HoldsQueue capacity s front queue) (ha : Admitted capacity) : s.ring.empty = queue.isEmpty := by
  have hcount := h.count ha
  rw [Bool.eq_iff_iff, List.isEmpty_iff, ← List.length_eq_zero_iff, ← hcount]
  unfold Ring.empty Ring.count
  rw [decide_eq_true_iff, h.head, h.tail]
  unfold size
  omega

/-- Two positions of the window with one slot are the same. -/
theorem slot_ne (ha : Admitted capacity) (htwo : 2 ≤ capacity) {i j : Nat} (hi : i < capacity) (hj : j < capacity)
    (hne : i ≠ j) : slot capacity (front + i) ≠ slot capacity (front + j) := by
  intro heq
  have := (ha.isCapacity htwo).slot_inj (r := front) (by omega) (by omega) (by omega) (by omega) heq
  omega

end HoldsQueue

end

/-! ### What a call does -/

section

variable {ι T : Type} [DecidableEq ι] {capacity : Nat} {s : State ι T} {p : ι}

private theorem State.setPush_setPush (s : State ι T) (p : ι) (pc pc' : Pushing T) :
    (s.setPush p pc).setPush p pc' = s.setPush p pc' := by
  simp only [State.setPush, Function.update_idem]

private theorem finishPush_loadSequence {value : T} {position fuel spurious : Nat}
    (h : s.push p = .loadSequence value position) :
    State.finishPush capacity p (fuel + 1) spurious s =
      (s.pushStep capacity p false).bind (State.finishPush capacity p fuel spurious) := by
  simp only [State.finishPush, h]

private theorem finishPush_compareExchange {value : T} {position fuel spurious : Nat}
    (h : s.push p = .compareExchange value position) :
    State.finishPush capacity p (fuel + 1) spurious s =
      (s.pushStep capacity p (decide (0 < spurious))).bind (State.finishPush capacity p fuel (spurious - 1)) := by
  simp only [State.finishPush, h]

/-- The loop of `try_push` in a buffer with room. -/
private theorem finishPush_free (hd : difference (s.ring.sequence (slot capacity s.ring.head)) s.ring.head = 0)
    (value : T) (spurious : Nat) :
    State.finishPush capacity p (2 * spurious + 5) spurious (s.setPush p (.loadSequence value s.ring.head)) =
      some (true, s.afterPush capacity s.ring.head p value) := by
  have hload : (s.setPush p (.loadSequence value s.ring.head)).pushStep capacity p false =
      some (s.setPush p (.compareExchange value s.ring.head)) := by
    simp only [State.pushStep, State.setPush_push_self, State.setPush_setPush]
    rw [show (s.setPush p (.loadSequence value s.ring.head)).ring = s.ring from rfl, if_pos hd]
  -- the compare-exchange fails as often as it may, and each time the loop is where it was
  induction spurious with
  | zero =>
    have hcas : (s.setPush p (.compareExchange value s.ring.head)).pushStep capacity p false =
        some { s.setPush p (.writeData value s.ring.head) with
          ring := { s.ring with head := size (s.ring.head + 1) }, claims := s.claims ++ [value] } := by
      simp only [State.pushStep, State.setPush_push_self, State.setPush_setPush]
      rw [if_pos ⟨rfl, trivial⟩]
      rfl
    simp only [State.finishPush, State.setPush_push_self, hload, Option.bind_some, lt_irrefl, decide_false, hcas]
    simp only [State.pushStep, State.setPush, Function.update_self, Function.update_idem, Option.bind_some,
      Option.map_some, State.afterPush]
  | succ n ih =>
    have hcas : (s.setPush p (.compareExchange value s.ring.head)).pushStep capacity p true =
        some (s.setPush p (.loadSequence value s.ring.head)) := by
      simp only [State.pushStep, State.setPush_push_self, State.setPush_setPush]
      simp only [Bool.true_eq_false, and_false, if_false]
      rfl
    rw [show 2 * (n + 1) + 5 = (2 * n + 5) + 1 + 1 by omega, finishPush_loadSequence (s.setPush_push_self _ _), hload,
      Option.bind_some, finishPush_compareExchange (s.setPush_push_self _ _), decide_eq_true (Nat.succ_pos n), hcas,
      Option.bind_some, Nat.add_sub_cancel]
    exact ih

private theorem finishPush_returned {result : Bool} {fuel spurious : Nat} (h : s.push p = .returned result) :
    State.finishPush capacity p (fuel + 1) spurious s = some (result, s.setPush p .idle) := by
  simp only [State.finishPush, State.pushStep, h, Option.map_some]

/-- A call of `try_push` comes to its loop. -/
private theorem call_tryPush (hp : s.push p = .idle) (value : T) (spurious : Nat) :
    s.call capacity (.tryPush p value spurious) =
      (State.finishPush capacity p (2 * spurious + 5) spurious (s.setPush p (.loadSequence value s.ring.head))).map
        fun r =>
        (.pushed r.1, r.2) := by
  have hstart : s.step capacity (.callPush p value) = some (s.setPush p (.loadHead value)) := by
    simp only [State.step, hp]
  have hload : State.finishPush capacity p (2 * spurious + 6) spurious (s.setPush p (.loadHead value)) =
      State.finishPush capacity p (2 * spurious + 5) spurious (s.setPush p (.loadSequence value s.ring.head)) := by
    rw [State.finishPush]
    simp only [State.pushStep, State.setPush_push_self, State.setPush_setPush, Option.bind_some]
    rfl
  rw [State.call, hstart, Option.bind_some, hload]

private theorem call_tryPush_free (hp : s.push p = .idle)
    (hd : difference (s.ring.sequence (slot capacity s.ring.head)) s.ring.head = 0) (value : T) (spurious : Nat) :
    s.call capacity (.tryPush p value spurious) = some (.pushed true, s.afterPush capacity s.ring.head p value) := by
  rw [call_tryPush hp, finishPush_free hd value spurious]
  rfl

/-- A push into a full buffer. -/
private theorem call_tryPush_full (hp : s.push p = .idle)
    (hd : difference (s.ring.sequence (slot capacity s.ring.head)) s.ring.head < 0) (value : T) (spurious : Nat) :
    s.call capacity (.tryPush p value spurious) = some (.pushed false, s.setPush p .idle) := by
  have hload : (s.setPush p (.loadSequence value s.ring.head)).pushStep capacity p false =
      some (s.setPush p (.returned false)) := by
    simp only [State.pushStep, State.setPush_push_self, State.setPush_setPush]
    rw [show (s.setPush p (.loadSequence value s.ring.head)).ring = s.ring from rfl, if_neg hd.ne, if_pos hd]
  rw [call_tryPush hp, finishPush_loadSequence (s.setPush_push_self _ _), hload, Option.bind_some,
    finishPush_returned (s.setPush_push_self _ _), State.setPush_setPush]
  rfl

private theorem call_tryPop_none (hp : s.pop = .idle)
    (hd : difference (s.ring.sequence (slot capacity s.ring.tail)) (size (s.ring.tail + 1)) < 0) :
    s.call capacity .tryPop = some (.popped none, { s with pop := .idle, popped := s.popped ++ [] }) := by
  simp only [State.call, State.step, hp, Option.bind_some, State.finishPop, State.popStep, if_pos hd, Option.map_some,
    Option.toList_none]

private theorem call_tryPop_some (hp : s.pop = .idle)
    (hd : difference (s.ring.sequence (slot capacity s.ring.tail)) (size (s.ring.tail + 1)) = 0) :
    s.call capacity .tryPop =
      some (.popped (some (s.ring.data (slot capacity s.ring.tail))),
        { s.afterPop capacity s.ring.tail with pop := .idle }) := by
  simp only [State.call, State.step, hp, Option.bind_some, State.finishPop, State.popStep, hd, lt_irrefl, if_false,
    Option.map_some, Option.toList_some, State.afterPop]

/-! ### Calls on the queue in the ring -/

namespace HoldsQueue

variable {front : Nat} {queue : List T}

/-- A push into a queue with room. -/
private theorem pushed (h : HoldsQueue capacity s front queue) (ha : Admitted capacity) (htwo : 2 ≤ capacity)
    (hroom : queue.length < capacity) (p : ι) (value : T) (spurious : Nat) :
    ∃ s', s.call capacity (.tryPush p value spurious) = some (.pushed true, s') ∧
      HoldsQueue capacity s' front (queue ++ [value]) := by
  have hslot : slot capacity s.ring.head = slot capacity (front + queue.length) := by
    rw [h.head, ha.slot_size htwo]
  have hd : difference (s.ring.sequence (slot capacity s.ring.head)) s.ring.head = 0 := by
    rw [hslot, h.sequence _ hroom, if_neg (lt_irrefl _), h.head, difference_self]
  have hlen : (queue ++ [value]).length = queue.length + 1 := List.length_append
  refine ⟨_, call_tryPush_free (h.push p) hd value spurious, ?_, h.pop, ?_, ?_, h.tail, fun i hi => ?_,
    fun i v hv => ?_⟩
  · intro p'
    show Function.update s.push p .idle p' = .idle
    rw [show s.push = fun _ => .idle from funext h.push, Function.update_eq_self_iff.2 rfl]
  · omega
  · show size (s.ring.head + 1) = size (front + (queue ++ [value]).length)
    rw [h.head, size_size_add, hlen, Nat.add_assoc]
  · show Function.update s.ring.sequence (slot capacity s.ring.head) (size (s.ring.head + 1))
        (slot capacity (front + i)) =
      if i < (queue ++ [value]).length then size (front + i + 1) else size (front + i)
    rw [hslot, hlen]
    by_cases hiq : i = queue.length
    · rw [hiq, Function.update_self, if_pos (Nat.lt_succ_self _), h.head, size_size_add]
    · rw [Function.update_of_ne (slot_ne ha htwo hi hroom hiq), h.sequence i hi]
      have hiff : i < queue.length ↔ i < queue.length + 1 := by omega
      simp only [hiff]
  · show Function.update s.ring.data (slot capacity s.ring.head) value (slot capacity (front + i)) = v
    rw [hslot]
    have hi : i < queue.length + 1 := hlen ▸ (List.getElem?_eq_some_iff.1 hv).1
    by_cases hiq : i = queue.length
    · rw [hiq, List.getElem?_concat_length] at hv
      rw [hiq, Function.update_self]
      exact Option.some.inj hv
    · rw [Function.update_of_ne (slot_ne ha htwo (by omega) hroom hiq)]
      rw [List.getElem?_append_left (by omega)] at hv
      exact h.data i v hv

/-- A push into a full queue. -/
theorem full (h : HoldsQueue capacity s front queue) (ha : Admitted capacity) (htwo : 2 ≤ capacity)
    (hfull : ¬ queue.length < capacity) (p : ι) (value : T) (spurious : Nat) :
    ∃ s', s.call capacity (.tryPush p value spurious) = some (.pushed false, s') ∧
      HoldsQueue capacity s' front queue := by
  have hle := ha.le
  have hlen : queue.length = capacity := by
    have := h.length_le
    omega
  have hslot : slot capacity s.ring.head = slot capacity (front + 0) := by
    rw [h.head, ha.slot_size htwo, hlen, (ha.isCapacity htwo).slot_add, Nat.add_zero]
  -- the slot belongs to the oldest value, whose sequence number is behind by the capacity less one
  have hd : difference (s.ring.sequence (slot capacity s.ring.head)) s.ring.head < 0 := by
    rw [hslot, h.sequence 0 (by omega), if_pos (by omega), h.head, hlen,
      difference_size_eq (d := 1 - capacity) (by push_cast; omega) (by omega) (by omega)]
    omega
  refine ⟨_, call_tryPush_full (h.push p) hd value spurious, { h with push := fun p' => ?_ }⟩
  show Function.update s.push p .idle p' = .idle
  rw [show s.push = fun _ => .idle from funext h.push, Function.update_eq_self_iff.2 rfl]

private theorem popNone (h : HoldsQueue capacity s front []) (ha : Admitted capacity) (htwo : 2 ≤ capacity) :
    ∃ s', s.call capacity .tryPop = some (.popped none, s') ∧ HoldsQueue capacity s' front [] := by
  have hd : difference (s.ring.sequence (slot capacity s.ring.tail)) (size (s.ring.tail + 1)) < 0 := by
    have hseq := h.sequence 0 (by omega)
    rw [h.tail, ha.slot_size htwo, size_size_add]
    rw [Nat.add_zero, List.length_nil, if_neg (Nat.not_lt_zero 0)] at hseq
    rw [hseq, difference_size_eq (d := -1) (by push_cast; omega) (by omega) (by omega)]
    decide
  exact ⟨_, call_tryPop_none h.pop hd, { h with pop := rfl }⟩

private theorem popSome {value : T} (h : HoldsQueue capacity s front (value :: queue)) (ha : Admitted capacity)
    (htwo : 2 ≤ capacity) :
    ∃ s', s.call capacity .tryPop = some (.popped (some value), s') ∧ HoldsQueue capacity s' (front + 1) queue := by
  have hlen : (value :: queue).length = queue.length + 1 := rfl
  have hle := h.length_le
  have hslot : slot capacity s.ring.tail = slot capacity (front + 0) := by
    rw [h.tail, ha.slot_size htwo, Nat.add_zero]
  have hd : difference (s.ring.sequence (slot capacity s.ring.tail)) (size (s.ring.tail + 1)) = 0 := by
    rw [hslot, h.sequence 0 (by omega), if_pos (by omega), h.tail, size_size_add, Nat.add_zero, difference_self]
  have hdata : s.ring.data (slot capacity s.ring.tail) = value := by
    rw [hslot]
    exact h.data 0 value rfl
  have hcall := call_tryPop_some h.pop hd
  rw [hdata] at hcall
  refine ⟨_, hcall, h.push, rfl, by omega, ?_, ?_, fun i hi => ?_, fun i v hv => ?_⟩
  · show s.ring.head = size (front + 1 + queue.length)
    rw [h.head, hlen]
    congr 1
    omega
  · show size (s.ring.tail + 1) = size (front + 1)
    rw [h.tail, size_size_add]
  · show Function.update s.ring.sequence (slot capacity s.ring.tail) (size (s.ring.tail + capacity))
      (slot capacity (front + 1 + i)) = if i < queue.length then size (front + 1 + i + 1) else size (front + 1 + i)
    rw [hslot]
    -- the slot that is released is the one of the last position of the new window
    by_cases hlast : i + 1 = capacity
    · rw [show front + 1 + i = front + 0 + capacity by omega, (ha.isCapacity htwo).slot_add, Function.update_self,
        h.tail, size_size_add, if_neg (by omega), Nat.add_zero]
    · rw [show front + 1 + i = front + (i + 1) by omega,
        Function.update_of_ne (slot_ne ha htwo (by omega) (by omega) (Nat.succ_ne_zero i)),
        h.sequence (i + 1) (by omega), hlen]
      have hiff : i + 1 < queue.length + 1 ↔ i < queue.length := by omega
      simp only [hiff]
  · show s.ring.data (slot capacity (front + 1 + i)) = v
    rw [show front + 1 + i = front + (i + 1) by omega]
    exact h.data (i + 1) v hv

/-- Whatever is called, the ring answers as the queue does. -/
theorem call (h : HoldsQueue capacity s front queue) (ha : Admitted capacity) (htwo : 2 ≤ capacity) (c : Call ι T) :
    ∃ s' front', s.call capacity c = some ((queueCall capacity queue c).1, s') ∧
      HoldsQueue capacity s' front' (queueCall capacity queue c).2 := by
  cases c with
  | tryPush p value spurious =>
    by_cases hroom : queue.length < capacity
    · obtain ⟨s', hcall, h'⟩ := h.pushed ha htwo hroom p value spurious
      simp only [queueCall, if_pos hroom]
      exact ⟨s', front, hcall, h'⟩
    · obtain ⟨s', hcall, h'⟩ := h.full ha htwo hroom p value spurious
      simp only [queueCall, if_neg hroom]
      exact ⟨s', front, hcall, h'⟩
  | tryPop =>
    cases queue with
    | nil =>
      obtain ⟨s', hcall, h'⟩ := h.popNone ha htwo
      exact ⟨s', front, hcall, h'⟩
    | cons value queue =>
      obtain ⟨s', hcall, h'⟩ := h.popSome ha htwo
      exact ⟨s', front + 1, hcall, h'⟩

end HoldsQueue

/-- Sequences of calls of any length. -/
private theorem refines_of_two_le (ha : Admitted capacity) (htwo : 2 ≤ capacity) (memory : Nat → T)
    (calls : List (Call ι T)) : Refines capacity memory calls := by
  obtain ⟨s, hanswers, front, h⟩ :=
    answers_eq_of_simulates (R := fun s queue => ∃ front, HoldsQueue capacity s front queue) (fun s queue c => by
      rintro ⟨front, h⟩
      obtain ⟨s', front', hcall, h'⟩ := h.call ha htwo c
      exact ⟨s', hcall, front', h'⟩)
    ⟨0, HoldsQueue.start ha htwo memory⟩ calls
  exact ⟨s, hanswers, h.count ha, h.empty ha⟩

end

/-- Two pushes without a pop. -/
def twoPushes {ι T : Type} (p : ι) (value : T) : List (Call ι T) := [.tryPush p value 0, .tryPush p value 0]

/-- With a single slot the second push succeeds as well. -/
private theorem not_refines_one {ι T : Type} [DecidableEq ι] (memory : Nat → T) (p : ι) (value : T) :
    ¬ Refines 1 memory (twoPushes p value) := by
  rintro ⟨s, h, -⟩
  have hfree : ∀ s : State ι T, s.push p = .idle → s.ring.sequence 0 = s.ring.head →
      s.call 1 (.tryPush p value 0) = some (.pushed true, s.afterPush 1 s.ring.head p value) := by
    intro s hp hseq
    have hslot : slot 1 s.ring.head = 0 := Nat.and_zero _
    refine call_tryPush_free hp ?_ value 0
    rw [hslot, hseq, difference_self]
  have hslot : ∀ n, slot 1 n = 0 := fun n => Nat.and_zero n
  rw [twoPushes, answers, hfree _ rfl rfl, Option.bind_some, answers, hfree _ (Function.update_self _ _ _)] at h
  · cases h
  · show Function.update _ (slot 1 _) _ 0 = _
    rw [hslot, Function.update_self]
    rfl

/-- The buffer is a queue of its capacity exactly when the capacity is not one. -/
theorem refines_iff {ι T : Type} [DecidableEq ι] {capacity : Nat} (ha : Admitted capacity) (p : ι)
    (memory : Nat → T) : (∀ calls : List (Call ι T), Refines capacity memory calls) ↔ capacity ≠ 1 := by
  constructor
  · rintro h rfl
    exact not_refines_one memory p (memory 0) (h _)
  · intro hne calls
    have := ha.pos
    exact refines_of_two_le ha (by omega) memory calls

private theorem admitted_two : Admitted 2 := ⟨by decide, by decide, by decide⟩

/-- Two producers fill a buffer of two slots, with a compare-exchange that fails three times, and the consumer
empties it. -/
theorem refines_sample :
    Refines 2 (fun _ => 0) [.tryPush false 7 3, .tryPush true 8 0, .tryPush true 9 0, .tryPop, .tryPop, .tryPop] :=
  (refines_iff admitted_two false fun _ => 0).2 (by decide) _

/-- A buffer of one slot takes a second value, and the first one is lost. -/
theorem single_slot_overwrites :
    Admitted 1 ∧ ((answers (State.call 1) (.start fun _ => 0)
      [.tryPush false 7 0, .tryPush true 8 0, .tryPop, .tryPop]).map
        Prod.fst = some [.pushed true, .pushed true, .popped (some 8), .popped none]) ∧
      ¬ Refines (ι := Bool) 1 (fun _ => 0) [.tryPush false 7 0, .tryPush true 8 0, .tryPop, .tryPop] := by
  have hrun : (answers (State.call 1) (.start fun _ => 0) [.tryPush false 7 0, .tryPush true 8 0, .tryPop,
      .tryPop]).map Prod.fst = some [.pushed true, .pushed true, .popped (some 8), .popped none] := by decide +kernel
  have hqueue : (replies (queueCall 1) [] [.tryPush false 7 0, .tryPush true 8 0, .tryPop, .tryPop]).1 ≠
      [.pushed true, .pushed true, .popped (some 8), .popped none] := by decide
  refine ⟨⟨by decide, by decide, by decide⟩, hrun, ?_⟩
  rintro ⟨s, h, -⟩
  rw [h] at hrun
  exact hqueue (Option.some.inj hrun)

end Elsa.MpscRingBuffer
