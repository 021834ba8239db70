import Mathlib.Data.List.Basic
import Elsa.Base.Steps

/-!
# `core/thread_safe_queue.h`

A queue behind a mutex, with a condition variable for consumers that wait.  What a thread does between taking and
giving up the mutex is one step, so a run is a list of critical sections in the order in which they have the mutex,
by any threads.

`m_condition_var.wait` gives up the mutex and puts the thread to sleep in one step; a thread that is woken, by
`notify_one` or for no reason, takes the mutex again and looks at the queue again.  Which sleeping thread
`notify_one` wakes is not determined.

* The values come out in the order in which they went in, each one once (`fifo`).
* No wakeup is lost: while a consumer sleeps, at least as many consumers are awake as there are values
  (`no_lost_wakeup`).
-/

namespace Elsa

open Base

/-- The call in which a consumer waits. -/
inductive Taking
  | waitAndDequeue
  | waitAndDequeueAll
deriving DecidableEq, Repr

/-- The values that leave the queue. -/
def Taking.taken {α : Type} : Taking → List α → List α
  | .waitAndDequeue, values => values.take 1
  | .waitAndDequeueAll, values => values

/-- The values that stay. -/
def Taking.left {α : Type} : Taking → List α → List α
  | .waitAndDequeue, values => values.drop 1
  | .waitAndDequeueAll, _ => []

structure ThreadSafeQueue (ι α : Type) where
  queue : List α
  /-- Asleep in `m_condition_var.wait`. -/
  sleeping : List (ι × Taking)
  /-- Back from it, about to take the mutex. -/
  woken : List (ι × Taking)
deriving DecidableEq, Repr

/-- The critical sections. -/
inductive CriticalSection (ι α : Type)
  | enqueue (value : α) (notified : Option (ι × Taking))
  | dequeue (thread : ι)
  | wait (thread : ι) (call : Taking)
  | wakeup (consumer : ι × Taking)
  | resume (consumer : ι × Taking)
deriving DecidableEq, Repr

/-- The value that a critical section puts into the queue. -/
def CriticalSection.enqueued? {ι α : Type} : CriticalSection ι α → Option α
  | .enqueue value _ => some value
  | _ => none

namespace ThreadSafeQueue

variable {ι α : Type}

def new : ThreadSafeQueue ι α := ⟨[], [], []⟩

def dequeue (q : ThreadSafeQueue ι α) : Option α × ThreadSafeQueue ι α :=
  match q.queue with
  | [] => (none, q)
  | value :: rest => (some value, { q with queue := rest })

/-- The test of the queue in `m_condition_var.wait`, and what follows it. -/
def await (q : ThreadSafeQueue ι α) (consumer : ι × Taking) : List α × ThreadSafeQueue ι α :=
  if q.queue = [] then ([], { q with sleeping := q.sleeping ++ [consumer] })
  else (consumer.2.taken q.queue, { q with queue := consumer.2.left q.queue })

variable [DecidableEq ι]

/-- A sleeping consumer wakes up. -/
def wake (q : ThreadSafeQueue ι α) (consumer : ι × Taking) : ThreadSafeQueue ι α :=
  { q with sleeping := q.sleeping.erase consumer, woken := q.woken ++ [consumer] }

/-- `m_condition_var.notify_one`: one of the sleeping consumers, if there is one. -/
def notifyOne (q : ThreadSafeQueue ι α) : Option (ι × Taking) → Option (ThreadSafeQueue ι α)
  | none => if q.sleeping = [] then some q else none
  | some consumer => if consumer ∈ q.sleeping then some (q.wake consumer) else none

def enqueue (q : ThreadSafeQueue ι α) (value : α) (notified : Option (ι × Taking)) : Option (ThreadSafeQueue ι α) :=
  { q with queue := q.queue ++ [value] }.notifyOne notified

/-- The thread is in none of the calls that wait. -/
def Free (q : ThreadSafeQueue ι α) (thread : ι) : Prop := ∀ consumer ∈ q.sleeping ++ q.woken, consumer.1 ≠ thread

instance (q : ThreadSafeQueue ι α) (thread : ι) : Decidable (q.Free thread) :=
  inferInstanceAs (Decidable (∀ consumer ∈ _, _))

/-- A critical section, with the values that it returns and the thread that gets them. -/
def step (q : ThreadSafeQueue ι α) : CriticalSection ι α → Option (List (ι × α) × ThreadSafeQueue ι α)
  | .enqueue value notified => (q.enqueue value notified).map fun q' => ([], q')
  | .dequeue thread =>
    if q.Free thread then some (q.dequeue.1.toList.map (Prod.mk thread), q.dequeue.2) else none
  | .wait thread call =>
    if q.Free thread then some ((q.await (thread, call)).1.map (Prod.mk thread), (q.await (thread, call)).2) else none
  | .wakeup consumer => if consumer ∈ q.sleeping then some ([], q.wake consumer) else none
  | .resume consumer =>
    if consumer ∈ q.woken then
      let r := { q with woken := q.woken.erase consumer }.await consumer
      some (r.1.map (Prod.mk consumer.1), r.2)
    else none

end ThreadSafeQueue

/-! ### First in, first out -/

section

variable {ι α : Type}

@[simp] theorem Taking.taken_append_left (call : Taking) (values : List α) :
    call.taken values ++ call.left values = values := by
  cases call with
  | waitAndDequeue => exact List.take_append_drop 1 values
  | waitAndDequeueAll => exact List.append_nil values

namespace ThreadSafeQueue

variable {q q' : ThreadSafeQueue ι α}

private theorem dequeue_values (q : ThreadSafeQueue ι α) : q.dequeue.1.toList ++ q.dequeue.2.queue = q.queue := by
  unfold dequeue
  split
  · rename_i hq
    rw [hq]
    rfl
  · rename_i value rest hq
    rw [hq]
    rfl

private theorem await_values (q : ThreadSafeQueue ι α) (consumer : ι × Taking) :
    (q.await consumer).1 ++ (q.await consumer).2.queue = q.queue := by
  unfold await
  split
  · rfl
  · exact consumer.2.taken_append_left q.queue

variable [DecidableEq ι]

private theorem notifyOne_queue {notified : Option (ι × Taking)} (h : q.notifyOne notified = some q') :
    q'.queue = q.queue := by
  cases notified with
  | none =>
    rw [notifyOne, Option.ite_none_right_eq_some, Option.some.injEq] at h
    rw [← h.2]
  | some consumer =>
    rw [notifyOne, Option.ite_none_right_eq_some, Option.some.injEq] at h
    rw [← h.2]
    rfl

/-- What a critical section returns and what it leaves is what was there and what it adds. -/
private theorem step_values {c : CriticalSection ι α} {returned : List (ι × α)} (h : q.step c = some (returned, q')) :
    returned.map Prod.snd ++ q'.queue = q.queue ++ c.enqueued?.toList := by
  have hreturned : ∀ (thread : ι) (values : List α), (values.map (Prod.mk thread)).map Prod.snd = values :=
    fun thread values => by
    rw [List.map_map]
    exact List.map_id values
  cases c with
  | enqueue value notified =>
    simp only [step, enqueue, Option.map_eq_some_iff, Prod.mk.injEq] at h
    obtain ⟨q₁, hn, rfl, rfl⟩ := h
    exact notifyOne_queue hn
  | dequeue thread =>
    simp only [step, Option.ite_none_right_eq_some, Option.some.injEq, Prod.mk.injEq] at h
    obtain ⟨-, rfl, rfl⟩ := h
    rw [hreturned, dequeue_values]
    exact (List.append_nil _).symm
  | wait thread call =>
    simp only [step, Option.ite_none_right_eq_some, Option.some.injEq, Prod.mk.injEq] at h
    obtain ⟨-, rfl, rfl⟩ := h
    rw [hreturned, await_values]
    exact (List.append_nil _).symm
  | wakeup consumer =>
    simp only [step, Option.ite_none_right_eq_some, Option.some.injEq, Prod.mk.injEq] at h
    obtain ⟨-, rfl, rfl⟩ := h
    exact (List.append_nil _).symm
  | resume consumer =>
    simp only [step, Option.ite_none_right_eq_some, Option.some.injEq, Prod.mk.injEq] at h
    obtain ⟨-, rfl, rfl⟩ := h
    rw [hreturned, await_values]
    exact (List.append_nil _).symm

/-- What the threads have got, in the order in which they got it, and what is in the queue are the values that were
put in, in the order in which they were put in. -/
theorem fifo {cs : List (CriticalSection ι α)} {returned : List (List (ι × α))}
    (h : answers step (new : ThreadSafeQueue ι α) cs = some (returned, q)) :
    returned.flatten.map Prod.snd ++ q.queue = cs.filterMap CriticalSection.enqueued? := by
  have hrun := answers_conserve (fun _ _ _ _ hc => step_values hc) h
  rw [List.map_flatten, List.filterMap_eq_flatMap_toList]
  rw [List.flatMap_def] at hrun
  exact hrun

/-- Two consumers wait, a value wakes one of them, and a third thread takes it first. -/
def sampleSections : List (CriticalSection Nat Nat) :=
  [.wait 0 .waitAndDequeue, .wait 1 .waitAndDequeueAll, .enqueue 7 (some (1, .waitAndDequeueAll)), .dequeue 2,
    .enqueue 8 (some (0, .waitAndDequeue)), .enqueue 9 none, .resume (0, .waitAndDequeue), .wait 0 .waitAndDequeue,
    .resume (1, .waitAndDequeueAll)]

theorem fifo_sampleSections : ∃ returned : List (Nat × Nat), returned = [(2, 7), (0, 8), (0, 9)] ∧
    returned.map Prod.snd ++ [] = sampleSections.filterMap CriticalSection.enqueued? := by
  have hrun : (answers step (new : ThreadSafeQueue Nat Nat) sampleSections).any
      (fun r => decide (r.1.flatten = [(2, 7), (0, 8), (0, 9)] ∧ r.2.queue = [])) = true := by decide +kernel
  obtain ⟨r, hr, hp⟩ := (Option.any_eq_true _ _).1 hrun
  obtain ⟨hreturned, hq⟩ := of_decide_eq_true hp
  have hfifo := fifo hr
  rw [hq] at hfifo
  exact ⟨r.1.flatten, hreturned, hfifo⟩

/-! ### Consumers that sleep -/

/-- While a consumer sleeps, the values are no more than the consumers that are awake. -/
def NoneLost (q : ThreadSafeQueue ι α) : Prop := q.sleeping ≠ [] → q.queue.length ≤ q.woken.length

omit [DecidableEq ι] in
/-- A consumer that finds a value takes at least one, so the consumer need not be counted any more. -/
private theorem await_noneLost {consumer : ι × Taking} (h : q.sleeping ≠ [] → q.queue.length ≤ q.woken.length + 1) :
    (q.await consumer).2.NoneLost := by
  intro hs
  unfold await at hs ⊢
  split
  · rename_i hq
    show q.queue.length ≤ q.woken.length
    rw [hq]
    exact Nat.zero_le _
  · rename_i hq
    rw [if_neg hq] at hs
    have hle := h hs
    have hpos := List.length_pos_of_ne_nil hq
    show (consumer.2.left q.queue).length ≤ q.woken.length
    cases consumer.2 with
    | waitAndDequeue =>
      rw [Taking.left, List.length_drop]
      omega
    | waitAndDequeueAll => exact Nat.zero_le _

private theorem NoneLost.wake (h : q.NoneLost) (consumer : ι × Taking) : (q.wake consumer).NoneLost := by
  intro hs
  have hle := h fun hnil => hs (by rw [ThreadSafeQueue.wake, hnil]; rfl)
  show q.queue.length ≤ (q.woken ++ [consumer]).length
  rw [List.length_append]
  omega

/-- A value that comes wakes a consumer, unless none sleeps. -/
theorem NoneLost.enqueue (h : q.NoneLost) {value : α} {notified : Option (ι × Taking)}
    (he : q.enqueue value notified = some q') : q'.NoneLost := by
  intro hs
  cases notified with
  | none =>
    rw [ThreadSafeQueue.enqueue, notifyOne, Option.ite_none_right_eq_some, Option.some.injEq] at he
    obtain ⟨hnil, rfl⟩ := he
    exact absurd hnil hs
  | some consumer =>
    rw [ThreadSafeQueue.enqueue, notifyOne, Option.ite_none_right_eq_some, Option.some.injEq] at he
    obtain ⟨hmem, rfl⟩ := he
    have hle := h (List.ne_nil_of_mem hmem)
    show (q.queue ++ [value]).length ≤ (q.woken ++ [consumer]).length
    rw [List.length_append, List.length_append]
    exact Nat.add_le_add_right hle 1

theorem NoneLost.step (h : q.NoneLost) {c : CriticalSection ι α} {returned : List (ι × α)}
    (hc : q.step c = some (returned, q')) : q'.NoneLost := by
  cases c with
  | enqueue value notified =>
    simp only [ThreadSafeQueue.step, Option.map_eq_some_iff, Prod.mk.injEq] at hc
    obtain ⟨q₁, hn, -, rfl⟩ := hc
    exact h.enqueue hn
  | dequeue thread =>
    simp only [ThreadSafeQueue.step, Option.ite_none_right_eq_some, Option.some.injEq, Prod.mk.injEq] at hc
    obtain ⟨-, -, rfl⟩ := hc
    intro hs
    unfold dequeue at hs ⊢
    split
    · exact h (by simpa only [‹q.queue = []›] using hs)
    · rename_i value rest hq
      simp only [hq] at hs
      have hle := h hs
      rw [hq, List.length_cons] at hle
      exact Nat.le_of_succ_le hle
  | wait thread call =>
    simp only [ThreadSafeQueue.step, Option.ite_none_right_eq_some, Option.some.injEq, Prod.mk.injEq] at hc
    obtain ⟨-, -, rfl⟩ := hc
    exact await_noneLost fun hs => Nat.le_succ_of_le (h hs)
  | wakeup consumer =>
    simp only [ThreadSafeQueue.step, Option.ite_none_right_eq_some, Option.some.injEq, Prod.mk.injEq] at hc
    obtain ⟨-, -, rfl⟩ := hc
    exact h.wake consumer
  | resume consumer =>
    simp only [ThreadSafeQueue.step, Option.ite_none_right_eq_some, Option.some.injEq, Prod.mk.injEq] at hc
    obtain ⟨hmem, -, rfl⟩ := hc
    refine await_noneLost fun hs => ?_
    have hle := h hs
    show q.queue.length ≤ (q.woken.erase consumer).length + 1
    rw [List.length_erase_of_mem hmem]
    omega

/-- While a consumer sleeps, at least as many consumers are awake as there are values, and whichever of them has the
mutex next gets a value. -/
theorem no_lost_wakeup {cs : List (CriticalSection ι α)} {returned : List (List (ι × α))}
    (h : answers step (new : ThreadSafeQueue ι α) cs = some (returned, q)) (hs : q.sleeping ≠ []) :
    q.queue.length ≤ q.woken.length ∧
      ∀ consumer ∈ q.woken, q.queue ≠ [] → ∃ values q', q.step (.resume consumer) = some (values, q') ∧
        values ≠ [] := by
  have hlost : q.NoneLost := answers_invariant (I := NoneLost) (p := fun _ => True)
      (fun _ _ _ _ hq _ hc => hq.step hc) (fun hnil => absurd rfl hnil) (fun _ _ => trivial) h
  refine ⟨hlost hs, fun consumer hmem hq => ?_⟩
  rw [step, if_pos hmem]
  refine ⟨_, _, rfl, ?_⟩
  rw [await, if_neg hq]
  obtain ⟨value, rest, hcons⟩ := List.exists_cons_of_ne_nil hq
  cases hcall : consumer.2 <;> simp [Taking.taken, hcons]

theorem no_lost_wakeup_sampleSections : ∃ q :
    ThreadSafeQueue Nat Nat, q.queue.length = 1 ∧ q.queue.length ≤ q.woken.length := by
  have hrun : (answers step (new : ThreadSafeQueue Nat Nat) (sampleSections.take 3)).any
      (fun r => decide (r.2.sleeping ≠ [] ∧ r.2.queue.length = 1)) = true := by decide +kernel
  obtain ⟨r, hr, hp⟩ := (Option.any_eq_true _ _).1 hrun
  obtain ⟨hs, hlen⟩ := of_decide_eq_true hp
  exact ⟨r.2, hlen, (no_lost_wakeup hr hs).1⟩

end ThreadSafeQueue

end

end Elsa
