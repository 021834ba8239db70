import Elsa.InterProcess.ThreadSafeQueue
import Elsa.Database.Records

/-!
# `AsyncWriter`

The thread that writes rows to the time series database, the threads that give it tasks, and its destructor.  A task
goes from the write queue into the buffer of the sender, and the rows of the buffer are handed to `flush`.
`writer_loop` is cut at each of its accesses to shared state, so a run is any interleaving of the writer with the
other threads.

A call of the sender's library may throw.  `append` catches it and the row is lost; an exception of `flush` leaves the
function of the thread and ends the process, except in the destructor, where it is caught.

* Rows are sent in the order of their tasks and none twice; a row is missing only if `append` threw (`rows_in_order`).
* Between two passes of the loop the buffer is empty or has fewer rows than the threshold (`buffer_bounded`).
* If nothing throws, the destructor comes to its end whatever the interleaving, and then every row was sent
  (`shutdown`).
-/

namespace Elsa

open Base

/-- Where the thread of the writer is, and after it the destructor. -/
inductive WriterLocation
  /-- At the head of `writer_loop`. -/
  | loop
  /-- In its inner loop. -/
  | draining
  /-- Before the test whether to flush. -/
  | flushing
  /-- `writer_loop` has returned. -/
  | returned
  /-- The destructor has joined the thread and empties the queue. -/
  | closing
  /-- The destructor is about to flush. -/
  | finishing
  | closed
  /-- An exception has left `writer_loop`. -/
  | terminated
deriving DecidableEq, Repr

structure AsyncWriter where
  /-- No thread waits on the queue: `writer_loop` polls it. -/
  writeQueue : ThreadSafeQueue Empty WriteTask
  flushThreshold : Int
  flushInterval : Int
  buffer : List Row
  stop : Bool
  lastFlush : Int
  location : WriterLocation
  /-- The rows that were handed to `flush`, where it did not throw. -/
  sent : List Row

/-- The steps, with the time that is read and whether the library throws. -/
inductive WriterEvent
  | insert (task : WriteTask)
  | destroy
  | load
  | append (throws : Bool)
  | flush (now : Int) (throws : Bool)
  | join
  | finish (throws : Bool)

namespace WriterEvent

def throws : WriterEvent → Bool
  | .append throws => throws
  | .flush _ throws => throws
  | .finish throws => throws
  | _ => false

/-- The tasks that a step gives to the writer. -/
def inserted : WriterEvent → List WriteTask
  | .insert task => [task]
  | _ => []

/-- An `append` that throws. -/
def Drops : WriterEvent → Prop
  | .append true => True
  | _ => False

theorem Drops.throws {e : WriterEvent} (h : e.Drops) : e.throws = true := by
  cases e with
  | append throws =>
    cases throws with
    | true => rfl
    | false => cases h
  | _ => cases h

end WriterEvent

namespace AsyncWriter

def new (flushThreshold flushInterval now : Int) : AsyncWriter :=
  ⟨.new, flushThreshold, flushInterval, [], false, now, .loop, []⟩

/-- `row_count() >= static_cast<size_t>(m_flush_threshold)`. -/
def Full (w : AsyncWriter) : Prop := (w.flushThreshold % 2 ^ 64).toNat ≤ w.buffer.length

instance (w : AsyncWriter) : Decidable w.Full := inferInstanceAs (Decidable (_ ≤ _))

/-- The test of `writer_loop` whether to flush. -/
def FlushDue (w : AsyncWriter) (now : Int) : Prop :=
  (0 < w.buffer.length ∧ w.flushInterval < now - w.lastFlush) ∨ w.Full

instance (w : AsyncWriter) (now : Int) : Decidable (w.FlushDue now) := inferInstanceAs (Decidable (_ ∨ _))

/-- `m_sender.flush(m_buffer)`, if it does not throw. -/
def flushed (w : AsyncWriter) : AsyncWriter := { w with sent := w.sent ++ w.buffer, buffer := [] }

variable (A : Arith) (serverName : String)

/-- `append`: the row of the task, or nothing if the library throws. -/
def appended (w : AsyncWriter) (throws : Bool) (task : WriteTask) : AsyncWriter :=
  if throws then w else { w with buffer := w.buffer ++ [task.row A serverName] }

/-- One pass of a loop that empties the queue, and where it goes on when the queue is empty. -/
def drain (w : AsyncWriter) (throws : Bool) (next : WriterLocation) : AsyncWriter :=
  match w.writeQueue.dequeue with
  | (some task, queue) => { w with writeQueue := queue }.appended A serverName throws task
  | (none, _) => { w with location := next }

def step (w : AsyncWriter) : WriterEvent → Option AsyncWriter
  | .insert task =>
    -- a client does not call an object whose destructor runs
    if w.stop = false ∧ w.location ≠ .terminated then
      (w.writeQueue.enqueue task none).map fun queue => { w with writeQueue := queue }
    else none
  | .destroy => if w.stop = false ∧ w.location ≠ .terminated then some { w with stop := true } else none
  | .load =>
    if w.location = .loop then some { w with location := if w.stop then .returned else .draining } else none
  | .append throws =>
    match w.location with
    | .draining => some (w.drain A serverName throws .flushing)
    | .closing => some (w.drain A serverName throws .finishing)
    | _ => none
  | .flush now throws =>
    if w.location = .flushing then
      if w.FlushDue now then
        if throws then some { w with location := .terminated }
        else some { w.flushed with lastFlush := now, location := .loop }
      else some { w with location := .loop }
    else none
  | .join => if w.location = .returned then some { w with location := .closing } else none
  | .finish throws =>
    if w.location = .finishing then
      if 0 < w.buffer.length ∧ throws = false then some { w.flushed with location := .closed }
      else some { w with location := .closed }
    else none

/-- The rows that were sent, those in the buffer, and those that the tasks in the queue will make. -/
def rows (w : AsyncWriter) : List Row :=
  w.sent ++ w.buffer ++ w.writeQueue.queue.map (WriteTask.row A serverName)

/-! ### What a step can do -/

inductive Turn (w : AsyncWriter) : WriterEvent → AsyncWriter → Prop
  | insert (task : WriteTask) (hstop : w.stop = false) :
      Turn w (.insert task) { w with writeQueue := { w.writeQueue with queue := w.writeQueue.queue ++ [task] } }
  | destroy (hstop : w.stop = false) : Turn w .destroy { w with stop := true }
  | goOn (hloc : w.location = .loop) (hstop : w.stop = false) : Turn w .load { w with location := .draining }
  | leave (hloc : w.location = .loop) (hstop : w.stop = true) : Turn w .load { w with location := .returned }
  | take (throws : Bool) (task : WriteTask) (rest : List WriteTask)
      (hloc : w.location = .draining ∨ w.location = .closing) (hqueue : w.writeQueue.queue = task :: rest) :
      Turn w (.append throws)
        ({ w with writeQueue := { w.writeQueue with queue := rest } }.appended A serverName throws task)
  | drained (throws : Bool) (hloc : w.location = .draining) (hqueue : w.writeQueue.queue = []) :
      Turn w (.append throws) { w with location := .flushing }
  | emptied (throws : Bool) (hloc : w.location = .closing) (hqueue : w.writeQueue.queue = []) :
      Turn w (.append throws) { w with location := .finishing }
  | flush (now : Int) (hloc : w.location = .flushing) (hdue : w.FlushDue now) :
      Turn w (.flush now false) { w.flushed with lastFlush := now, location := .loop }
  | terminate (now : Int) (hloc : w.location = .flushing) (hdue : w.FlushDue now) :
      Turn w (.flush now true) { w with location := .terminated }
  | skip (now : Int) (throws : Bool) (hloc : w.location = .flushing) (hdue : ¬ w.FlushDue now) :
      Turn w (.flush now throws) { w with location := .loop }
  | join (hloc : w.location = .returned) : Turn w .join { w with location := .closing }
  | finish (throws : Bool) (hloc : w.location = .finishing) (hflush : w.buffer = [] ∨ throws = false) :
      Turn w (.finish throws) { w.flushed with location := .closed }
  | giveUp (hloc : w.location = .finishing) (hbuffer : w.buffer ≠ []) :
      Turn w (.finish true) { w with location := .closed }

section steps

variable {A : Arith} {serverName : String} {w w' : AsyncWriter}

private theorem enqueue_none (q : ThreadSafeQueue Empty WriteTask) (task : WriteTask) :
    q.enqueue task none = some { q with queue := q.queue ++ [task] } := by
  have hs : q.sleeping = [] := List.eq_nil_iff_forall_not_mem.2 fun consumer => consumer.1.elim
  exact if_pos hs

private theorem flushed_of_buffer_nil (h : w.buffer = []) : w.flushed = w := by
  cases w
  simp_all [flushed]

private theorem appended_fixed (A : Arith) (serverName : String) (w : AsyncWriter) (throws : Bool)
    (task : WriteTask) :
    (w.appended A serverName throws task).location = w.location ∧
      (w.appended A serverName throws task).stop = w.stop ∧
      (w.appended A serverName throws task).writeQueue = w.writeQueue := by
  unfold appended
  split <;> exact ⟨rfl, rfl, rfl⟩

/-- A pass of a loop that empties the queue takes the first task, or finds the queue empty. -/
private theorem drain_cases (A : Arith) (serverName : String) (w : AsyncWriter) (throws : Bool)
    (next : WriterLocation) :
    (∃ task rest, w.writeQueue.queue = task :: rest ∧ w.drain A serverName throws next =
      { w with writeQueue := { w.writeQueue with queue := rest } }.appended A serverName throws task) ∨
    (w.writeQueue.queue = [] ∧ w.drain A serverName throws next = { w with location := next }) := by
  unfold drain ThreadSafeQueue.dequeue
  cases hq : w.writeQueue.queue with
  | nil => exact Or.inr ⟨rfl, rfl⟩
  | cons task rest => exact Or.inl ⟨task, rest, rfl, rfl⟩

theorem turn_of_step {e : WriterEvent} (h : w.step A serverName e = some w') : w.Turn A serverName e w' := by
  cases e with
  | insert task =>
    simp only [step, enqueue_none, Option.map_some, Option.ite_none_right_eq_some, Option.some.injEq] at h
    obtain ⟨⟨hstop, -⟩, rfl⟩ := h
    exact .insert task hstop
  | destroy =>
    simp only [step, Option.ite_none_right_eq_some, Option.some.injEq] at h
    obtain ⟨⟨hstop, -⟩, rfl⟩ := h
    exact .destroy hstop
  | load =>
    simp only [step, Option.ite_none_right_eq_some, Option.some.injEq] at h
    obtain ⟨hloc, rfl⟩ := h
    by_cases hstop : w.stop = true
    · rw [if_pos hstop]
      exact .leave hloc hstop
    · rw [if_neg hstop]
      exact .goOn hloc (Bool.eq_false_of_not_eq_true hstop)
  | append throws =>
    simp only [step] at h
    split at h
    · rename_i hloc
      cases h
      rcases w.drain_cases A serverName throws .flushing with ⟨task, rest, hq, hd⟩ | ⟨hq, hd⟩
      · rw [hd]
        exact .take throws task rest (Or.inl hloc) hq
      · rw [hd]
        exact .drained throws hloc hq
    · rename_i hloc
      cases h
      rcases w.drain_cases A serverName throws .finishing with ⟨task, rest, hq, hd⟩ | ⟨hq, hd⟩
      · rw [hd]
        exact .take throws task rest (Or.inr hloc) hq
      · rw [hd]
        exact .emptied throws hloc hq
    · cases h
  | flush now throws =>
    simp only [step, Option.ite_none_right_eq_some] at h
    obtain ⟨hloc, h⟩ := h
    by_cases hdue : w.FlushDue now
    · rw [if_pos hdue] at h
      cases throws with
      | true =>
        cases h
        exact .terminate now hloc hdue
      | false =>
        cases h
        exact .flush now hloc hdue
    · rw [if_neg hdue] at h
      cases h
      exact .skip now throws hloc hdue
  | join =>
    simp only [step, Option.ite_none_right_eq_some, Option.some.injEq] at h
    obtain ⟨hloc, rfl⟩ := h
    exact .join hloc
  | finish throws =>
    simp only [step, Option.ite_none_right_eq_some] at h
    obtain ⟨hloc, h⟩ := h
    by_cases hbuf : w.buffer = []
    · -- flushing an empty buffer changes nothing
      rw [if_neg fun hpos => absurd hpos.1 (by rw [hbuf]; exact Nat.lt_irrefl 0)] at h
      cases h
      have hturn : w.Turn A serverName (.finish throws) _ := .finish throws hloc (Or.inl hbuf)
      rw [flushed_of_buffer_nil hbuf] at hturn
      exact hturn
    · cases throws with
      | false =>
        rw [if_pos ⟨List.length_pos_of_ne_nil hbuf, rfl⟩] at h
        cases h
        exact .finish false hloc (Or.inr rfl)
      | true =>
        rw [if_neg fun hb => Bool.noConfusion hb.2] at h
        cases h
        exact .giveUp hloc hbuf

theorem Turn.rows_sublist {e : WriterEvent} (h : w.Turn A serverName e w') :
    List.Sublist (w'.rows A serverName) (w.rows A serverName ++ e.inserted.map (WriteTask.row A serverName)) ∧
      (¬ e.Drops → w'.rows A serverName = w.rows A serverName ++ e.inserted.map (WriteTask.row A serverName)) := by
  have hsame : ∀ {xs ys : List Row} {p : Prop}, xs = ys → List.Sublist xs ys ∧ (p → xs = ys) :=
    fun heq => ⟨heq ▸ List.Sublist.refl _, fun _ => heq⟩
  cases h with
  | insert task hstop => exact hsame (by simp [rows, WriterEvent.inserted])
  | take throws task rest hloc hqueue =>
    cases throws with
    | false => exact hsame (by simp [rows, appended, hqueue, WriterEvent.inserted])
    | true =>
      refine ⟨?_, fun hkeep => absurd trivial hkeep⟩
      have hrows : w.rows A serverName =
          w.sent ++ w.buffer ++ task.row A serverName :: rest.map (WriteTask.row A serverName) := by
        rw [rows, hqueue, List.map_cons]
      rw [hrows]
      exact ((List.sublist_cons_self _ _).append_left _).trans (List.sublist_append_left _ _)
  | flush | finish => exact hsame (by simp [rows, flushed, WriterEvent.inserted])
  | destroy | goOn | leave | drained | emptied | terminate | skip | join | giveUp =>
    exact hsame (List.append_nil _).symm

theorem Turn.rows_eq {e : WriterEvent} (h : w.Turn A serverName e w') (hquiet : e.throws = false) :
    w'.rows A serverName = w.rows A serverName ++ e.inserted.map (WriteTask.row A serverName) :=
  h.rows_sublist.2 fun hd => Bool.noConfusion (hquiet.symm.trans hd.throws)

/-! ### Runs -/

variable {threshold interval now : Int} {es : List WriterEvent}

/-- A run in which no row is lost. -/
theorem exec_rows (h : exec (step A serverName) w es = some w') (hkeep : ∀ e ∈ es, ¬ e.Drops) :
    w'.rows A serverName = w.rows A serverName ++ (es.flatMap WriterEvent.inserted).map
      (WriteTask.row A serverName) := by
  rw [List.map_flatMap]
  refine exec_contents (fun _ => rfl) Eq.trans (fun zs hs => congrArg (· ++ zs) hs) ?_ hkeep h
  intro v e v' hd hstep
  exact (turn_of_step hstep).rows_sublist.2 hd

/-- The rows that were sent, are buffered and queued are those of the tasks, in their order and none twice; a row is
missing only if its `append` threw. -/
theorem rows_in_order (h : exec (step A serverName) (new threshold interval now) es = some w) :
    List.Sublist (w.rows A serverName) ((es.flatMap WriterEvent.inserted).map (WriteTask.row A serverName)) ∧
      ((∀ e ∈ es, ¬ e.Drops) → w.rows A serverName = (es.flatMap WriterEvent.inserted).map
        (WriteTask.row A serverName)) := by
  refine ⟨?_, exec_rows h⟩
  rw [List.map_flatMap]
  refine exec_contents (p := fun _ => True) List.Sublist.refl List.Sublist.trans (fun zs hs => hs.append_right zs) ?_
    (fun _ _ => trivial) h
  intro v e v' _ hstep
  exact (turn_of_step hstep).rows_sublist.1

/-- Between two passes of `writer_loop` the buffer is empty or has fewer rows than the threshold. -/
theorem buffer_bounded (h : exec (step A serverName) (new threshold interval now) es = some w)
    (hloc : w.location = .loop) : w.buffer = [] ∨ ¬ w.Full := by
  refine exec_invariant (I := fun w : AsyncWriter => w.location = .loop → w.buffer = [] ∨ ¬ w.Full)
    (p := fun _ => True) ?_ (fun _ => Or.inl rfl) (fun _ _ => trivial) h hloc
  intro s e s' hs _ hstep hloc'
  cases turn_of_step hstep with
  | insert | destroy => exact hs hloc'
  | flush => exact Or.inl rfl
  | skip now throws hl hdue => exact Or.inr fun hfull => hdue (Or.inr hfull)
  | take throws task rest hl hq =>
    obtain ⟨hsame, -, -⟩ :=
      ({ s with writeQueue := { s.writeQueue with queue := rest } }).appended_fixed A serverName throws task
    rw [hsame] at hloc'
    rcases hl with hl | hl <;> rw [hl] at hloc' <;> cases hloc'
  | goOn | leave | drained | emptied | terminate | join | finish | giveUp => cases hloc'

/-! ### Shutdown -/

/-- Nothing has thrown so far: what is known at the places that the destructor passes. -/
structure Sound (w : AsyncWriter) : Prop where
  stopped : w.location = .returned ∨ w.location = .closing ∨ w.location = .finishing ∨ w.location = .closed →
    w.stop = true
  queue_nil : w.location = .finishing ∨ w.location = .closed → w.writeQueue.queue = []
  buffer_nil : w.location = .closed → w.buffer = []
  alive : w.location ≠ .terminated

theorem new_sound : (new threshold interval now).Sound where
  stopped h := by simp [new] at h
  queue_nil _ := rfl
  buffer_nil _ := rfl
  alive h := by cases h

theorem Turn.sound {e : WriterEvent} (h : w.Turn A serverName e w') (hs : w.Sound) (hquiet : e.throws = false) :
    w'.Sound := by
  cases h with
  | insert task hstop =>
    -- the destructor has not started, so it is at none of its places
    have hnot : ¬ (w.location = .returned ∨ w.location = .closing ∨ w.location = .finishing ∨
        w.location = .closed) := fun hloc =>
      absurd (hs.stopped hloc) (by rw [hstop]; exact Bool.false_ne_true)
    exact ⟨fun hloc => absurd hloc hnot, fun hloc => absurd (Or.inr (Or.inr hloc)) hnot, hs.buffer_nil, hs.alive⟩
  | destroy hstop => exact ⟨fun _ => rfl, hs.queue_nil, hs.buffer_nil, hs.alive⟩
  | leave hloc hstop => exact ⟨fun _ => hstop, by simp, by simp, by simp⟩
  | take throws task rest hloc hqueue =>
    obtain ⟨hl, hst, hq⟩ :=
      ({ w with writeQueue := { w.writeQueue with queue := rest } }).appended_fixed A serverName throws task
    have hplace : w.location ≠ .finishing ∧ w.location ≠ .closed := by
      rcases hloc with hloc | hloc <;> rw [hloc] <;> exact ⟨by decide, by decide⟩
    refine ⟨fun h => ?_, fun h => ?_, fun h => ?_, ?_⟩
    · rw [hst]
      rw [hl] at h
      exact hs.stopped h
    · rw [hl] at h
      exact absurd h (not_or.2 hplace)
    · rw [hl] at h
      exact absurd h hplace.2
    · rw [hl]
      exact hs.alive
  | emptied throws hloc hqueue =>
    exact ⟨fun _ => hs.stopped (Or.inr (Or.inl hloc)), fun _ => hqueue, by simp, by simp⟩
  | join hloc => exact ⟨fun _ => hs.stopped (Or.inl hloc), by simp, by simp, by simp⟩
  | finish throws hloc hflush =>
    exact ⟨fun _ => hs.stopped (Or.inr (Or.inr (Or.inl hloc))), fun _ => hs.queue_nil (Or.inl hloc), fun _ => rfl,
      by simp⟩
  | terminate | giveUp => cases hquiet
  | goOn | drained | flush | skip => exact ⟨by simp, by simp, by simp, by simp⟩

/-- A client gives some tasks. -/
theorem Sound.insert (hs : w.Sound) {tasks : List WriteTask}
    (h : exec (step A serverName) w (tasks.map .insert) = some w') :
    w'.Sound ∧ w'.rows A serverName = w.rows A serverName ++ tasks.map (WriteTask.row A serverName) := by
  have hquiet : ∀ e ∈ tasks.map WriterEvent.insert, e.throws = false := fun e he => by
    obtain ⟨task, -, rfl⟩ := List.mem_map.1 he
    rfl
  constructor
  · refine exec_invariant (I := Sound) ?_ hs hquiet h
    intro v e v' hv hq hstep
    exact (turn_of_step hstep).sound hv hq
  · have htasks : (tasks.map WriterEvent.insert).flatMap WriterEvent.inserted = tasks := by
      rw [List.flatMap_map]
      exact List.flatMap_singleton' tasks
    have hrows := exec_rows h fun e he hd => Bool.noConfusion ((hquiet e he).symm.trans hd.throws)
    rw [htasks] at hrows
    exact hrows

/-- How far the destructor is from its end, tasks in the queue apart. -/
def WriterLocation.distance : WriterLocation → Nat
  | .draining => 6
  | .flushing => 5
  | .loop => 4
  | .returned => 3
  | .closing => 2
  | .finishing => 1
  | .closed => 0
  | .terminated => 0

/-- How many steps are left once the destructor has started. -/
def remaining (w : AsyncWriter) : Nat := WriterLocation.distance w.location + w.writeQueue.queue.length

private theorem Turn.remaining_lt {e : WriterEvent} (h : w.Turn A serverName e w') (hstop : w.stop = true)
    (hquiet : e.throws = false) : w'.stop = true ∧ e.inserted = [] ∧ w'.remaining < w.remaining := by
  have hrunning : w.stop = false → False := fun h => Bool.noConfusion (hstop.symm.trans h)
  cases h with
  | insert task h | destroy h => exact (hrunning h).elim
  | goOn hloc h => exact (hrunning h).elim
  | take throws task rest hloc hqueue =>
    obtain ⟨hl, hst, hq⟩ :=
      ({ w with writeQueue := { w.writeQueue with queue := rest } }).appended_fixed A serverName throws task
    refine ⟨hst.trans hstop, rfl, ?_⟩
    rw [remaining, remaining, hl, hq, hqueue, List.length_cons]
    exact Nat.lt_succ_self _
  | terminate | giveUp => cases hquiet
  | leave hloc | drained throws hloc | emptied throws hloc | flush now hloc | skip now throws hloc | join hloc
  | finish throws hloc =>
    refine ⟨hstop, rfl, ?_⟩
    simp [remaining, hloc, WriterLocation.distance, flushed]

/-- Until the destructor has ended a step is possible. -/
theorem Sound.goes_on (hs : w.Sound) :
    w.location = .closed ∨ ∃ e w', e.throws = false ∧ w.step A serverName e = some w' := by
  cases hloc : w.location with
  | loop => exact Or.inr ⟨.load, _, rfl, by rw [step, if_pos hloc]⟩
  | draining => exact Or.inr ⟨.append false, w.drain A serverName false .flushing, rfl, by simp only [step, hloc]⟩
  | flushing =>
    refine Or.inr ⟨.flush 0 false, ?_⟩
    simp only [step, hloc, if_true]
    split
    · exact ⟨_, rfl, rfl⟩
    · exact ⟨_, rfl, rfl⟩
  | returned => exact Or.inr ⟨.join, _, rfl, by rw [step, if_pos hloc]⟩
  | closing => exact Or.inr ⟨.append false, w.drain A serverName false .finishing, rfl, by simp only [step, hloc]⟩
  | finishing =>
    refine Or.inr ⟨.finish false, ?_⟩
    simp only [step, hloc, if_true]
    split
    · exact ⟨_, rfl, rfl⟩
    · exact ⟨_, rfl, rfl⟩
  | closed => exact Or.inl rfl
  | terminated => exact absurd hloc hs.alive

/-- If nothing throws, the destructor comes to its end, whatever the order of the steps and after at most six steps
and one for each task in the queue; then the rows of all tasks were handed to `flush`, in their order. -/
theorem shutdown (h : exec (step A serverName) (new threshold interval now) es = some w)
    (hquiet : ∀ e ∈ es, e.throws = false) (hstop : w.stop = true) :
    (∃ fs w', (∀ e ∈ fs, e.throws = false) ∧ exec (step A serverName) w fs = some w' ∧ w'.location = .closed) ∧
      ∀ fs w', (∀ e ∈ fs, e.throws = false) → exec (step A serverName) w fs = some w' →
        fs.length ≤ w.writeQueue.queue.length + 6 ∧ (w'.location = .closed →
          w'.sent = (es.flatMap WriterEvent.inserted).map (WriteTask.row A serverName)) := by
  have hkeep : ∀ e ∈ es, ¬ e.Drops := fun e he hd => Bool.noConfusion ((hquiet e he).symm.trans hd.throws)
  have hsound : w.Sound := by
    refine exec_invariant (I := Sound) ?_ new_sound hquiet h
    intro v e v' hs hq hstep
    exact (turn_of_step hstep).sound hs hq
  have hrows := (rows_in_order h).2 hkeep
  -- what the destructor keeps, and what it counts down
  let I : AsyncWriter → Prop := fun v => v.Sound ∧ v.stop = true ∧ v.rows A serverName = w.rows A serverName
  have hdown : ∀ v e v', I v → e.throws = false → v.step A serverName e = some v' →
      I v' ∧ v'.remaining < v.remaining := by
    rintro v e v' ⟨hs, hst, hr⟩ hq hstep
    have hturn := turn_of_step hstep
    obtain ⟨hst', hins, hlt⟩ := hturn.remaining_lt hst hq
    have hr' := hturn.rows_eq hq
    rw [hins, List.map_nil, List.append_nil, hr] at hr'
    exact ⟨⟨hturn.sound hs hq, hst', hr'⟩, hlt⟩
  have hI : I w := ⟨hsound, hstop, rfl⟩
  refine ⟨exists_rest hdown (fun v hv => hv.1.goes_on) hI, fun fs w' hfs hrun => ⟨?_, fun hclosed => ?_⟩⟩
  · have hle := exec_length_le hdown hI hfs hrun
    have hdist : WriterLocation.distance w.location ≤ 6 := by cases w.location <;> decide
    rw [remaining] at hle
    omega
  · obtain ⟨hs', -, hr'⟩ :=
      exec_invariant (I := I) (fun v e v' hv hq hstep => (hdown v e v' hv hq hstep).1) hI hfs hrun
    rw [rows, hs'.buffer_nil hclosed, hs'.queue_nil (Or.inr hclosed), List.append_nil, List.map_nil,
      List.append_nil] at hr'
    rw [hr', hrows]

/-! ### A small run -/

/-- Two tasks; the destructor starts while the second one is in the queue. -/
def sampleWriting : List WriterEvent :=
  [.insert (.cancelResponseInsertion ⟨1, 7, true⟩), .load, .append false,
    .insert (.cancelResponseInsertion ⟨2, 8, false⟩), .destroy]

theorem rows_in_order_sampleWriting : ∃ w : AsyncWriter, w.buffer.length = 1 ∧ w.rows .machine "GME" =
    (sampleWriting.flatMap WriterEvent.inserted).map (WriteTask.row .machine "GME") := by
  have hrun : (exec (step .machine "GME") (new 64 100 0) sampleWriting).any
      (fun w => decide (w.buffer.length = 1)) = true := by
    decide +kernel
  obtain ⟨w, hw, hlen⟩ := (Option.any_eq_true _ _).1 hrun
  refine ⟨w, of_decide_eq_true hlen, (rows_in_order hw).2 ?_⟩
  simp [sampleWriting, WriterEvent.Drops]

theorem shutdown_sampleWriting :
    ∃ (w : AsyncWriter) (fs : List WriterEvent) (w' : AsyncWriter), w.writeQueue.queue.length = 1 ∧
    exec (step .machine "GME") w fs = some w' ∧ w'.location = .closed ∧ fs.length ≤ 7 ∧
    w'.sent = (sampleWriting.flatMap WriterEvent.inserted).map (WriteTask.row .machine "GME") := by
  have hrun : (exec (step .machine "GME") (new 64 100 0) sampleWriting).any
      (fun w => decide (w.writeQueue.queue.length = 1 ∧ w.stop = true)) = true := by decide +kernel
  obtain ⟨w, hw, hp⟩ := (Option.any_eq_true _ _).1 hrun
  obtain ⟨hlen, hstop⟩ := of_decide_eq_true hp
  have hquiet : ∀ e ∈ sampleWriting, e.throws = false := by simp [sampleWriting, WriterEvent.throws]
  obtain ⟨⟨fs, w', hfs, hrun', hclosed⟩, hall⟩ := shutdown hw hquiet hstop
  obtain ⟨hbound, hstored⟩ := hall fs w' hfs hrun'
  exact ⟨w, fs, w', hlen, hrun', hclosed, by omega, hstored hclosed⟩

end steps

end AsyncWriter

end Elsa
