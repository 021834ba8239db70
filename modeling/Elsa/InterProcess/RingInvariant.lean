import Mathlib.Data.Nat.ModEq
import Elsa.InterProcess.RingBuffer

/-!
# Why the ring buffer is correct

Positions are claimed in their order and released in their order.  Of the positions that share a slot, exactly one
lies in the window of the `capacity` positions from the first one that is not released; the sequence number of the
slot is this position, or the one after it once the position is published (`Inv.sequence`).  A producer may claim a
position only in the window, so that two positions in use never share a slot.

The numbers stay below `2 ^ 63` as long as the number of claims plus the capacity does; then the signed differences
are exact.
-/

namespace Elsa.MpscRingBuffer

open Base

/-! ### Slots and positions -/

/-- A power of two, at least two. -/
def IsCapacity (capacity : Nat) : Prop := ∃ k, 1 ≤ k ∧ capacity = 2 ^ k

section

variable {capacity : Nat}

private theorem IsCapacity.two_le (hc : IsCapacity capacity) : 2 ≤ capacity := by
  obtain ⟨k, hk, rfl⟩ := hc
  calc 2 = 2 ^ 1 := rfl
    _ ≤ 2 ^ k := Nat.pow_le_pow_right (by decide) hk

theorem IsCapacity.slot_eq (hc : IsCapacity capacity) (q : Nat) : slot capacity q = q % capacity := by
  obtain ⟨k, -, rfl⟩ := hc
  exact Nat.and_two_pow_sub_one_eq_mod q k

/-- Positions less than the capacity apart have different slots. -/
theorem IsCapacity.slot_inj (hc : IsCapacity capacity) {r q q' : Nat} (h1 : r ≤ q) (h2 : q < r + capacity)
    (h1' : r ≤ q') (h2' : q' < r + capacity) (h : slot capacity q = slot capacity q') : q = q' := by
  rw [hc.slot_eq, hc.slot_eq] at h
  rcases Nat.le_total q q' with hle | hle
  · have hdvd := (Nat.modEq_iff_dvd' hle).1 h
    have := Nat.eq_zero_of_dvd_of_lt hdvd (by omega)
    omega
  · have hdvd := (Nat.modEq_iff_dvd' hle).1 h.symm
    have := Nat.eq_zero_of_dvd_of_lt hdvd (by omega)
    omega

/-- The position of the window that shares the slot. -/
private theorem IsCapacity.exists_window (hc : IsCapacity capacity) (r q : Nat) :
    ∃ q', r ≤ q' ∧ q' < r + capacity ∧ slot capacity q' = slot capacity q := by
  have htwo := hc.two_le
  refine ⟨r + (q + capacity * r - r) % capacity, by omega, ?_, ?_⟩
  · have := Nat.mod_lt (q + capacity * r - r) (show 0 < capacity by omega)
    omega
  · have hle : r ≤ capacity * r := Nat.le_mul_of_pos_left r (by omega)
    have hsum : r + (q + capacity * r - r) = q + capacity * r := by omega
    rw [hc.slot_eq, hc.slot_eq, Nat.add_mod_mod, hsum, Nat.add_mul_mod_self_left]

theorem IsCapacity.slot_add (hc : IsCapacity capacity) (q : Nat) :
    slot capacity (q + capacity) = slot capacity q := by
  rw [hc.slot_eq, hc.slot_eq, Nat.add_mod_right]

/-- Neighbours have different slots. -/
private theorem IsCapacity.slot_succ_ne (hc : IsCapacity capacity) (q : Nat) :
    slot capacity (q + 1) ≠ slot capacity q := by
  intro h
  have htwo := hc.two_le
  have := hc.slot_inj (r := q) (by omega) (by omega) (by omega) (by omega) h
  omega

/-- Of two positions with one slot, the greater one is ahead by the capacity or more. -/
private theorem IsCapacity.add_le (hc : IsCapacity capacity) {q q' : Nat} (h : slot capacity q = slot capacity q')
    (hlt : q < q') : q + capacity ≤ q' := by
  rw [hc.slot_eq, hc.slot_eq] at h
  have hdvd := (Nat.modEq_iff_dvd' hlt.le).1 h
  have := Nat.le_of_dvd (by omega) hdvd
  omega

end

theorem size_eq {n : Nat} (h : n ≤ 9223372036854775808) : size n = n := Nat.mod_eq_of_lt (by omega)

private theorem difference_eq {a b : Nat} (ha : a < 9223372036854775808) (hb : b < 9223372036854775808) :
    difference a b = (a : Int) - b := by
  unfold difference
  apply Int.bmod_eq_of_le_mul_two <;> push_cast <;> omega

/-! ### The invariant -/

section

variable {ι T : Type} {capacity : Nat}

/-- The push of a value won a position and has not published it. -/
def State.Holds (s : State ι T) (q : Nat) (value : T) : Prop := s.claims[q]? = some value ∧ q ∉ s.published

/-- What a producer knows. -/
def State.PushOk (capacity : Nat) (s : State ι T) : Pushing T → Prop
  | .loadSequence _ position => position ≤ s.claims.length
  | .compareExchange _ position => position < s.released + capacity
  | .writeData value position => s.Holds position value
  | .storeSequence value position => s.Holds position value ∧ s.ring.data (slot capacity position) = value
  | _ => True

/-- What the consumer knows. -/
def State.PopOk (s : State ι T) : Popping T → Prop
  | .loadSequence position => position = s.released ∧ s.ring.tail = s.released ∧ s.popped.length = s.released
  | .readData position => position = s.released ∧ s.released ∈ s.published ∧ s.ring.tail = s.released ∧
      s.popped.length = s.released
  | .storeSequence position result => position = s.released ∧ s.released ∈ s.published ∧
      s.claims[position]? = some result ∧ s.ring.tail = s.released ∧ s.popped.length = s.released
  | .storeTail position result => position + 1 = s.released ∧ s.claims[position]? = some result ∧
      s.popped.length = position
  | .returned (some result) => s.ring.tail = s.released ∧ s.popped.length + 1 = s.released ∧
      s.claims[s.popped.length]? = some result
  | _ => s.ring.tail = s.released ∧ s.popped.length = s.released

private theorem getElem?_of_isPrefix {xs xs' : List T} (h : xs <+: xs') {q : Nat} {value : T}
    (hq : xs[q]? = some value) : xs'[q]? = some value := by
  obtain ⟨ys, rfl⟩ := h
  rw [List.getElem?_append_left (List.getElem?_eq_some_iff.1 hq).1]
  exact hq

theorem State.PushOk.mono {s s' : State ι T} {pc : Pushing T} (h : s.PushOk capacity pc)
    (hclaims : s.claims <+: s'.claims) (hrel : s.released ≤ s'.released)
    (hpub : ∀ w, pc.writing? = some w → w.1 ∉ s.published → w.1 ∉ s'.published)
    (hdata : ∀ w, pc.writing? = some w → s'.ring.data (slot capacity w.1) = s.ring.data (slot capacity w.1)) :
    s'.PushOk capacity pc := by
  have hholds : ∀ q value, pc.writing? = some (q, value) → s.Holds q value → s'.Holds q value := by
    intro q value hw hq
    exact ⟨getElem?_of_isPrefix hclaims hq.1, hpub (q, value) hw hq.2⟩
  cases pc with
  | loadSequence value position => exact le_trans h hclaims.length_le
  | compareExchange value position => exact lt_of_lt_of_le h (Nat.add_le_add_right hrel capacity)
  | writeData value position => exact hholds position value rfl h
  | storeSequence value position => exact ⟨hholds position value rfl h.1, (hdata (position, value) rfl).trans h.2⟩
  | _ => trivial

theorem State.PopOk.mono {s s' : State ι T} {pc : Popping T} (h : s.PopOk pc) (hclaims : s.claims <+: s'.claims)
    (hpub : ∀ q ∈ s.published, q ∈ s'.published) (hrel : s'.released = s.released)
    (htail : s'.ring.tail = s.ring.tail) (hpopped : s'.popped = s.popped) : s'.PopOk pc := by
  cases pc with
  | loadSequence position => simpa only [State.PopOk, hrel, htail, hpopped] using h
  | readData position =>
    obtain ⟨h1, h2, h3⟩ := h
    simp only [State.PopOk, hrel, htail, hpopped]
    exact ⟨h1, hpub _ h2, h3⟩
  | storeSequence position result =>
    obtain ⟨h1, h2, h3, h4⟩ := h
    simp only [State.PopOk, hrel, htail, hpopped]
    exact ⟨h1, hpub _ h2, getElem?_of_isPrefix hclaims h3, h4⟩
  | storeTail position result =>
    obtain ⟨h1, h2, h3⟩ := h
    simp only [State.PopOk, hrel, hpopped]
    exact ⟨h1, getElem?_of_isPrefix hclaims h2, h3⟩
  | returned r =>
    cases r with
    | none => simpa only [State.PopOk, hrel, htail, hpopped] using h
    | some result =>
      obtain ⟨h1, h2, h3⟩ := h
      simp only [State.PopOk, hrel, htail, hpopped]
      exact ⟨h1, h2, getElem?_of_isPrefix hclaims h3⟩
  | _ => simpa only [State.PopOk, hrel, htail, hpopped] using h

structure Inv (capacity : Nat) (s : State ι T) : Prop where
  claimed_le : s.claims.length ≤ s.released + capacity
  published_lt : ∀ q ∈ s.published, q < s.claims.length
  released_published : ∀ q < s.released, q ∈ s.published
  popped_eq : s.popped = s.claims.take s.popped.length
  head : s.ring.head = s.claims.length
  sequence : ∀ q, s.released ≤ q → q < s.released + capacity →
    s.ring.sequence (slot capacity q) = if q ∈ s.published then q + 1 else q
  data : ∀ q ∈ s.published, s.released ≤ q → s.claims[q]? = some (s.ring.data (slot capacity q))
  push : ∀ p, s.PushOk capacity (s.push p)
  pop : s.PopOk s.pop
  distinct : ∀ p p' w w', (s.push p).writing? = some w → (s.push p').writing? = some w' → w.1 = w'.1 → p = p'

namespace Inv

variable {s : State ι T}

private theorem released_le (h : Inv capacity s) : s.released ≤ s.claims.length := by
  rcases Nat.eq_zero_or_pos s.released with h0 | hpos
  · omega
  · have := h.published_lt _ (h.released_published (s.released - 1) (by omega))
    omega

/-- A producer that writes holds its position. -/
theorem holds (h : Inv capacity s) {p : ι} {w : Nat × T} (hw : (s.push p).writing? = some w) : s.Holds w.1 w.2 := by
  have hp := h.push p
  cases hpc : s.push p with
  | writeData value position =>
    rw [hpc] at hp hw
    cases hw
    exact hp
  | storeSequence value position =>
    rw [hpc] at hp hw
    cases hw
    exact hp.1
  | _ =>
    rw [hpc] at hw
    cases hw

/-- A position that is held lies in the window. -/
private theorem holds_window (h : Inv capacity s) {q : Nat} {value : T} (hq : s.Holds q value) :
    s.released ≤ q ∧ q < s.released + capacity := by
  have hlt := (List.getElem?_eq_some_iff.1 hq.1).1
  have := h.claimed_le
  refine ⟨?_, by omega⟩
  by_contra hlow
  exact hq.2 (h.released_published q (by omega))

/-- So does a published position that is not released. -/
theorem published_window (h : Inv capacity s) {q : Nat} (hq : q ∈ s.published) : q < s.released + capacity :=
  lt_of_lt_of_le (h.published_lt q hq) h.claimed_le

/-- A position that is held has another slot than the other positions of the window. -/
theorem slot_ne (h : Inv capacity s) (hc : IsCapacity capacity) {q q' : Nat} {value : T} (hq : s.Holds q value)
    (h1 : s.released ≤ q') (h2 : q' < s.released + capacity) (hne : q ≠ q') : slot capacity q ≠ slot capacity q' := by
  obtain ⟨h3, h4⟩ := h.holds_window hq
  exact fun heq => hne (hc.slot_inj h3 h4 h1 h2 heq)

/-- Two producers that write do so in different slots. -/
theorem writers (h : Inv capacity s) (hc : IsCapacity capacity) {p p' : ι} {w w' : Nat × T} (hne : p ≠ p')
    (hw : (s.push p).writing? = some w) (hw' : (s.push p').writing? = some w') :
    slot capacity w.1 ≠ slot capacity w'.1 := by
  obtain ⟨h1, h2⟩ := h.holds_window (h.holds hw')
  exact h.slot_ne hc (h.holds hw) h1 h2 fun heq => hne (h.distinct p p' w w' hw hw' heq)

/-- What a load of a sequence number finds: a position of the window, or the one after it if it is published. -/
private theorem sequence_window (h : Inv capacity s) (hc : IsCapacity capacity) (position : Nat) :
    ∃ q, s.released ≤ q ∧ q < s.released + capacity ∧ slot capacity q = slot capacity position ∧
      (s.ring.sequence (slot capacity position) = q ∨
        s.ring.sequence (slot capacity position) = q + 1 ∧ q < s.claims.length) := by
  obtain ⟨q, h1, h2, hq⟩ := hc.exists_window s.released position
  refine ⟨q, h1, h2, hq, ?_⟩
  rw [← hq, h.sequence q h1 h2]
  split
  · next hpub => exact Or.inr ⟨rfl, h.published_lt q hpub⟩
  · exact Or.inl rfl

/-! ### Steps of the consumer -/

variable {s' : State ι T}

/-- A step that only moves the consumer on. -/
theorem setPop (h : Inv capacity s) {pc : Popping T} (hpc : s.PopOk pc) : Inv capacity { s with pop := pc } :=
  { h with pop := hpc }

/-- The sequence number of the next position is not ahead of it unless the position is published. -/
theorem difference_neg_iff (h : Inv capacity s) (hc : IsCapacity capacity)
    (hb : s.claims.length + capacity ≤ 9223372036854775808) :
    difference (s.ring.sequence (slot capacity s.released)) (size (s.released + 1)) < 0 ↔
    s.released ∉ s.published := by
  have htwo := hc.two_le
  have hrel := h.released_le
  rw [h.sequence s.released (le_refl _) (by omega), size_eq (by omega)]
  split
  · next hpub =>
    have := h.published_lt _ hpub
    rw [difference_eq (by omega) (by omega)]
    exact iff_of_false (by omega) (fun hn => hn hpub)
  · next hpub =>
    rw [difference_eq (by omega) (by omega)]
    exact iff_of_true (by omega) hpub

/-- The consumer releases a position: the window moves on, and the slot becomes free for the position that enters
it. -/
private theorem release (h : Inv capacity s) (hc : IsCapacity capacity)
    (hb : s.claims.length + capacity ≤ 9223372036854775808) {position : Nat} {result : T}
    (hpc : s.pop = .storeSequence position result) :
    Inv capacity { s with
      pop := .storeTail position result
      ring := { s.ring with
        sequence := Function.update s.ring.sequence (slot capacity position) (size (position + capacity)) }
      released := s.released + 1 } := by
  have hpop := h.pop
  rw [hpc] at hpop
  obtain ⟨rfl, hpub, hresult, -, hpopped⟩ := hpop
  have hlt := h.published_lt _ hpub
  refine
    { h with claimed_le := ?_, released_published := fun q hq => ?_, sequence := fun q h1 h2 => ?_,
             data := fun q hq hr => h.data q hq (Nat.le_of_succ_le hr),
             push := fun p => (h.push p).mono (List.prefix_refl _) (Nat.le_succ _) (fun _ _ hq => hq) fun _ _ => rfl,
             pop := ⟨rfl, hresult, hpopped⟩ }
  · have := h.claimed_le
    show s.claims.length ≤ s.released + 1 + capacity
    omega
  · rcases Nat.lt_succ_iff_lt_or_eq.1 hq with hq | rfl
    · exact h.released_published q hq
    · exact hpub
  · have h1 : s.released + 1 ≤ q := h1
    have h2 : q < s.released + 1 + capacity := h2
    show Function.update s.ring.sequence (slot capacity s.released) (size (s.released + capacity)) (slot capacity q) =
      if q ∈ s.published then q + 1 else q
    by_cases hq : q = s.released + capacity
    · have hfree : q ∉ s.published := fun hmem => by
        have := h.published_window hmem
        omega
      rw [if_neg hfree, hq, hc.slot_add, Function.update_self, size_eq (by omega)]
    · have hne : slot capacity q ≠ slot capacity s.released := fun heq => by
        have := hc.slot_inj (r := s.released) (by omega) (by omega) (le_refl _) (by omega) heq
        omega
      rw [Function.update_of_ne hne, h.sequence q (by omega) (by omega)]

theorem popStep (h : Inv capacity s) (hc : IsCapacity capacity) (hs : s.popStep capacity = some s')
    (hb : s'.claims.length + capacity ≤ 9223372036854775808) : Inv capacity s' := by
  have hpop := h.pop
  have hrel := h.released_le
  unfold State.popStep at hs
  split at hs
  · cases hs
  · next hpc =>
    rw [hpc] at hpop
    cases hs
    exact h.setPop ⟨hpop.1, hpop⟩
  · next position hpc =>
    rw [hpc] at hpop
    obtain ⟨rfl, htail, hpopped⟩ := hpop
    cases hs
    refine h.setPop ?_
    split
    · exact ⟨htail, hpopped⟩
    · next hd =>
      rw [h.difference_neg_iff hc hb, not_not] at hd
      exact ⟨rfl, hd, htail, hpopped⟩
  · next position hpc =>
    rw [hpc] at hpop
    obtain ⟨rfl, hpub, hrest⟩ := hpop
    cases hs
    exact h.setPop ⟨rfl, hpub, h.data _ hpub (le_refl _), hrest⟩
  · next position result hpc =>
    cases hs
    exact h.release hc hb hpc
  · next position result hpc =>
    rw [hpc] at hpop
    obtain ⟨hpos, hresult, rfl⟩ := hpop
    cases hs
    have hb : s.claims.length + capacity ≤ 9223372036854775808 := hb
    exact { h with pop := ⟨(size_eq (by omega)).trans hpos, hpos, hresult⟩ }
  · next result hpc =>
    rw [hpc] at hpop
    cases hs
    cases result with
    | none =>
      have hnil : s.popped ++ [] = s.popped := List.append_nil _
      refine { h with popped_eq := ?_, pop := ?_ }
      · show s.popped ++ [] = s.claims.take (s.popped ++ []).length
        rw [hnil]
        exact h.popped_eq
      · show s.ring.tail = s.released ∧ (s.popped ++ []).length = s.released
        rw [hnil]
        exact hpop
    | some result =>
      obtain ⟨htail, hlen, hresult⟩ := hpop
      have hnext : (s.popped ++ [result]).length = s.popped.length + 1 := List.length_append
      refine { h with popped_eq := ?_, pop := ⟨htail, hnext.trans hlen⟩ }
      show s.popped ++ [result] = s.claims.take (s.popped ++ [result]).length
      rw [hnext, List.take_add_one, hresult, ← h.popped_eq]
      rfl

/-! ### Steps of a producer -/

/-- A load of the sequence number that shows the position is free: the position lies in the window. -/
private theorem lt_of_difference_eq_zero (h : Inv capacity s) (hc : IsCapacity capacity)
    (hb : s.claims.length + capacity ≤ 9223372036854775808) {position : Nat} (hle : position ≤ s.claims.length)
    (hd : difference (s.ring.sequence (slot capacity position)) position = 0) : position < s.released + capacity := by
  have htwo := hc.two_le
  have hrel := h.released_le
  obtain ⟨q, h1, h2, hq, hseq⟩ := h.sequence_window hc position
  rw [difference_eq (by omega) (by omega)] at hd
  rcases hseq with hseq | ⟨hseq, -⟩
  · omega
  · have heq : position = q + 1 := by omega
    rw [heq] at hq
    exact absurd hq.symm (hc.slot_succ_ne q)

/-- A load of the sequence number that shows the buffer is full. -/
theorem full_of_difference_neg (h : Inv capacity s) (hc : IsCapacity capacity)
    (hb : s.claims.length + capacity ≤ 9223372036854775808) {position : Nat} (hle : position ≤ s.claims.length)
    (hd : difference (s.ring.sequence (slot capacity position)) position < 0) :
    s.released + capacity ≤ s.claims.length := by
  have htwo := hc.two_le
  have hrel := h.released_le
  obtain ⟨q, h1, h2, hq, hseq⟩ := h.sequence_window hc position
  rw [difference_eq (by omega) (by omega)] at hd
  have := hc.add_le hq (by omega)
  omega

variable [DecidableEq ι] {p : ι} {pc : Pushing T}

private theorem push_update (hpush : s'.push = Function.update s.push p pc) (hpc : s'.PushOk capacity pc)
    (hothers : ∀ p' ≠ p, s'.PushOk capacity (s.push p')) (p' : ι) : s'.PushOk capacity (s'.push p') := by
  rw [hpush]
  by_cases hp : p' = p
  · rw [hp, Function.update_self]
    exact hpc
  · rw [Function.update_of_ne hp]
    exact hothers p' hp

private theorem distinct_update (h : Inv capacity s) (hpush : s'.push = Function.update s.push p pc)
    (hnew : ∀ w, pc.writing? = some w → ∀ p' w', p' ≠ p → (s.push p').writing? = some w' → w.1 ≠ w'.1) :
    ∀ p₁ p₂ w₁ w₂, (s'.push p₁).writing? = some w₁ → (s'.push p₂).writing? = some w₂ → w₁.1 = w₂.1 → p₁ = p₂ := by
  intro p₁ p₂ w₁ w₂ h1 h2 heq
  rw [hpush] at h1 h2
  by_cases hp1 : p₁ = p <;> by_cases hp2 : p₂ = p
  · rw [hp1, hp2]
  · rw [hp1, Function.update_self] at h1
    rw [Function.update_of_ne hp2] at h2
    exact absurd heq (hnew w₁ h1 p₂ w₂ hp2 h2)
  · rw [hp2, Function.update_self] at h2
    rw [Function.update_of_ne hp1] at h1
    exact absurd heq.symm (hnew w₂ h2 p₁ w₁ hp1 h1)
  · rw [Function.update_of_ne hp1] at h1
    rw [Function.update_of_ne hp2] at h2
    exact h.distinct p₁ p₂ w₁ w₂ h1 h2 heq

/-- A step that only moves a producer on. -/
theorem setPush (h : Inv capacity s) (pc : Pushing T) (hpc : s.PushOk capacity pc) (hw : pc.writing? = none) :
    Inv capacity (s.setPush p pc) where
  claimed_le := h.claimed_le
  published_lt := h.published_lt
  released_published := h.released_published
  popped_eq := h.popped_eq
  head := h.head
  sequence := h.sequence
  data := h.data
  push := push_update rfl hpc fun p' _ => h.push p'
  pop := h.pop
  distinct := h.distinct_update rfl fun w hw' => by rw [hw] at hw'; cases hw'

/-- The compare-exchange of a producer succeeds. -/
private theorem claim (h : Inv capacity s) (hb : s.claims.length + 1 + capacity ≤ 9223372036854775808) {value : T}
    {position : Nat} (hpc : s.push p = .compareExchange value position) (hhead : s.ring.head = position) :
    Inv capacity { s.setPush p (.writeData value position) with
      ring := { s.ring with head := size (position + 1) }, claims := s.claims ++ [value] } := by
  have hwin : position < s.released + capacity := by
    have hp := h.push p
    rw [hpc] at hp
    exact hp
  have hpos : position = s.claims.length := hhead.symm.trans h.head
  have hlen : (s.claims ++ [value]).length = s.claims.length + 1 := List.length_append
  have hprefix : s.claims <+: s.claims ++ [value] := List.prefix_append _ _
  have hfresh : position ∉ s.published := fun hpub => by
    have := h.published_lt position hpub
    omega
  refine
    { claimed_le := ?_, published_lt := fun q hq => lt_of_lt_of_le (h.published_lt q hq) hprefix.length_le,
      released_published := h.released_published, popped_eq := ?_, head := ?_, sequence := h.sequence,
      data := fun q hq hr => getElem?_of_isPrefix hprefix (h.data q hq hr), push := ?_,
      pop := h.pop.mono hprefix (fun _ hq => hq) rfl rfl rfl, distinct := ?_ }
  · show (s.claims ++ [value]).length ≤ s.released + capacity
    omega
  · have hk : s.popped.length ≤ s.claims.length := by
      have := congrArg List.length h.popped_eq
      rw [List.length_take] at this
      omega
    show s.popped = (s.claims ++ [value]).take s.popped.length
    rw [List.take_append_of_le_length hk]
    exact h.popped_eq
  · show size (position + 1) = (s.claims ++ [value]).length
    rw [size_eq (by omega)]
    omega
  · refine push_update rfl ⟨?_, hfresh⟩ fun p' _ =>
      (h.push p').mono hprefix (le_refl _) (fun _ _ hq => hq) fun _ _ => rfl
    show (s.claims ++ [value])[position]? = some value
    rw [hpos, List.getElem?_concat_length]
  · refine h.distinct_update rfl fun w hw p' w' _ hw' => ?_
    cases hw
    have := (List.getElem?_eq_some_iff.1 (h.holds hw').1).1
    show position ≠ w'.1
    omega

/-- A producer writes the data of its slot. -/
theorem writeData (h : Inv capacity s) (hc : IsCapacity capacity) {value : T} {position : Nat}
    (hpc : s.push p = .writeData value position) :
    Inv capacity { s.setPush p (.storeSequence value position) with
      ring := { s.ring with data := Function.update s.ring.data (slot capacity position) value } } := by
  have hw : (s.push p).writing? = some (position, value) := by rw [hpc]; rfl
  have hholds : s.Holds position value := h.holds hw
  refine { h with data := fun q hq hr => ?_, push := ?_, distinct := ?_ }
  · have hne : slot capacity position ≠ slot capacity q :=
      h.slot_ne hc hholds hr (h.published_window hq) fun heq => hholds.2 (heq ▸ hq)
    show s.claims[q]? = some (Function.update s.ring.data (slot capacity position) value (slot capacity q))
    rw [Function.update_of_ne (Ne.symm hne)]
    exact h.data q hq hr
  · refine push_update rfl ⟨hholds, Function.update_self _ _ _⟩ fun p' hp' =>
      (h.push p').mono (List.prefix_refl _) (le_refl _) (fun _ _ hq => hq) fun w' hw' => ?_
    exact Function.update_of_ne (h.writers hc hp' hw' hw) _ _
  · refine h.distinct_update rfl fun w₁ hw₁ p' w' hp' hw' heq => ?_
    cases hw₁
    exact hp' (h.distinct p' p w' (position, value) hw' hw heq.symm)

/-- A producer publishes its position. -/
private theorem publish (h : Inv capacity s) (hc : IsCapacity capacity)
    (hb : s.claims.length + capacity ≤ 9223372036854775808) {value : T} {position : Nat}
    (hpc : s.push p = .storeSequence value position) :
    Inv capacity { s.setPush p (.returned true) with
      ring :=
  { s.ring with sequence := Function.update s.ring.sequence (slot capacity position) (size (position + 1)) }
      published := position :: s.published } := by
  have hw : (s.push p).writing? = some (position, value) := by rw [hpc]; rfl
  have hholds : s.Holds position value := h.holds hw
  have hlt : position < s.claims.length := (List.getElem?_eq_some_iff.1 hholds.1).1
  have hdata : s.ring.data (slot capacity position) = value := by
    have hp := h.push p
    rw [hpc] at hp
    exact hp.2
  refine
    { h with published_lt := fun q hq => ?_, released_published := fun q hq =>
    List.mem_cons_of_mem _ (h.released_published q hq), sequence := fun q h1 h2 => ?_, data :=
      fun q hq hr => ?_, push := ?_, pop :=
        h.pop.mono (List.prefix_refl _) (fun _ hq => List.mem_cons_of_mem _ hq) rfl rfl rfl, distinct := ?_ }
  · rcases List.mem_cons.1 hq with rfl | hq
    · exact hlt
    · exact h.published_lt q hq
  · show Function.update s.ring.sequence (slot capacity position) (size (position + 1)) (slot capacity q) =
      if q ∈ position :: s.published then q + 1 else q
    by_cases hq : position = q
    · rw [← hq, Function.update_self, if_pos List.mem_cons_self, size_eq (by omega)]
    · rw [Function.update_of_ne (Ne.symm (h.slot_ne hc hholds h1 h2 hq)), h.sequence q h1 h2]
      have hiff : q ∈ position :: s.published ↔ q ∈ s.published := by
        rw [List.mem_cons, or_iff_right (Ne.symm hq)]
      simp only [hiff]
  · rcases List.mem_cons.1 hq with rfl | hq
    · rw [← hdata] at hholds
      exact hholds.1
    · exact h.data q hq hr
  · refine push_update rfl trivial fun p' hp' =>
      (h.push p').mono (List.prefix_refl _) (le_refl _) (fun w' hw' hq => ?_) fun _ _ => rfl
    refine List.not_mem_cons_of_ne_of_not_mem (fun heq => ?_) hq
    exact hp' (h.distinct p' p w' (position, value) hw' hw heq)
  · exact h.distinct_update rfl fun w hw => by cases hw

theorem pushStep (h : Inv capacity s) (hc : IsCapacity capacity) {fails : Bool}
    (hs : s.pushStep capacity p fails = some s') (hb : s'.claims.length + capacity ≤ 9223372036854775808) :
    Inv capacity s' := by
  have hp := h.push p
  unfold State.pushStep at hs
  split at hs
  · cases hs
  · next value hpc =>
    cases hs
    exact h.setPush (.loadSequence value s.ring.head) h.head.le rfl
  · next value position hpc =>
    rw [hpc] at hp
    cases hs
    refine h.setPush _ ?_ ?_
    · split
      · next hd => exact h.lt_of_difference_eq_zero hc hb hp hd
      · split <;> trivial
    · split
      · rfl
      · split <;> rfl
  · next value position hpc =>
    split at hs
    · next hhead =>
      cases hs
      have hlen : (s.claims ++ [value]).length = s.claims.length + 1 := List.length_append
      have hb : (s.claims ++ [value]).length + capacity ≤ 9223372036854775808 := hb
      exact h.claim (by omega) hpc hhead.1
    · cases hs
      exact h.setPush (.loadSequence value s.ring.head) h.head.le rfl
  · next value position hpc =>
    cases hs
    exact h.writeData hc hpc
  · next value position hpc =>
    cases hs
    exact h.publish hc hb hpc
  · cases hs
    exact h.setPush .idle trivial rfl

end Inv

end

end Elsa.MpscRingBuffer
