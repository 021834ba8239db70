import Mathlib.Logic.Function.Basic
import Mathlib.Data.List.Basic
import Elsa.Base.Steps

/-!
# The ring buffer of `MpscRingBuffer`

Any number of producers in `try_push` and one consumer in `try_pop`.  A step is one load, compare-exchange, store or
access to the data of a slot, with the local computation up to the next one; steps of different threads interleave
in any order. `std::size_t` has 64 bits, and the difference of two sequence numbers is a signed number of 64 bits.

Next to the memory and the threads the state records what happened so far: the values of the pushes that won a
position (`claims`), the positions that were published, the number of positions that the consumer released, and the
values that were returned by `try_pop`.
-/

namespace Elsa.MpscRingBuffer

open Base

/-- What `std::size_t` makes of a number. -/
def size (n : Nat) : Nat := n % 18446744073709551616

/-- The difference as `std::intptr_t`.  It overflows when a sequence number from `2 ^ 63` on is compared with a
position before it; C++ leaves this undefined, and here the difference wraps. -/
def difference (a b : Nat) : Int := Int.bmod ((a : Int) - b) 18446744073709551616

/-- `position & mask`. -/
def slot (capacity position : Nat) : Nat := position &&& (capacity - 1)

/-- The shared memory; slots are numbered from 0. -/
structure Ring (T : Type) where
  head : Nat
  tail : Nat
  sequence : Nat → Nat
  data : Nat → T

/-- `init`; the data of the slots is not touched. -/
def Ring.init {T : Type} (memory : Nat → T) : Ring T := ⟨0, 0, fun i => i, memory⟩

/-- Where a thread is in `try_push`: what it does next. -/
inductive Pushing (T : Type)
  | idle
  | loadHead (value : T)
  | loadSequence (value : T) (position : Nat)
  | compareExchange (value : T) (position : Nat)
  | writeData (value : T) (position : Nat)
  | storeSequence (value : T) (position : Nat)
  | returned (result : Bool)
deriving DecidableEq

/-- Where the consumer is in `try_pop`. -/
inductive Popping (T : Type)
  | idle
  | loadTail
  | loadSequence (position : Nat)
  | readData (position : Nat)
  | storeSequence (position : Nat) (result : T)
  | storeTail (position : Nat) (result : T)
  | returned (result : Option T)
deriving DecidableEq

structure State (ι T : Type) where
  ring : Ring T
  push : ι → Pushing T
  pop : Popping T
  claims : List T
  published : List Nat
  released : Nat
  popped : List T

/-- A thread calls its function, or goes on.  A compare-exchange may fail although the values agree. -/
inductive Event (ι T : Type)
  | callPush (p : ι) (value : T)
  | push (p : ι) (fails : Bool)
  | callPop
  | pop

section

variable {ι T : Type} [DecidableEq ι]

namespace State

def start (memory : Nat → T) : State ι T := ⟨.init memory, fun _ => .idle, .idle, [], [], 0, []⟩

/-- The thread `p` is at another place. -/
def setPush (s : State ι T) (p : ι) (pc : Pushing T) : State ι T := { s with push := Function.update s.push p pc }

@[simp] theorem setPush_push_self (s : State ι T) (p : ι) (pc : Pushing T) : (s.setPush p pc).push p = pc :=
  Function.update_self _ _ _

variable (capacity : Nat)

/-- One step of `try_push`. -/
def pushStep (s : State ι T) (p : ι) (fails : Bool) : Option (State ι T) :=
  match s.push p with
  | .idle => none
  | .loadHead value => some (s.setPush p (.loadSequence value s.ring.head))
  | .loadSequence value position =>
    let d := difference (s.ring.sequence (slot capacity position)) position
    some (s.setPush p
      (if d = 0 then .compareExchange value position else if d < 0 then .returned false else .loadHead value))
  | .compareExchange value position =>
    if s.ring.head = position ∧ fails = false then
      some { s.setPush p (.writeData value position) with
        ring := { s.ring with head := size (position + 1) }, claims := s.claims ++ [value] }
    else some (s.setPush p (.loadSequence value s.ring.head))
  | .writeData value position =>
    some { s.setPush p (.storeSequence value position) with
      ring := { s.ring with data := Function.update s.ring.data (slot capacity position) value } }
  | .storeSequence _ position =>
    some { s.setPush p (.returned true) with
      ring :=
        { s.ring with sequence := Function.update s.ring.sequence (slot capacity position) (size (position + 1)) }
      published := position :: s.published }
  | .returned _ => some (s.setPush p .idle)

/-- One step of `try_pop`. -/
def popStep (s : State ι T) : Option (State ι T) :=
  match s.pop with
  | .idle => none
  | .loadTail => some { s with pop := .loadSequence s.ring.tail }
  | .loadSequence position =>
    let d := difference (s.ring.sequence (slot capacity position)) (size (position + 1))
    some { s with pop := if d < 0 then .returned none else .readData position }
  | .readData position => some { s with pop := .storeSequence position (s.ring.data (slot capacity position)) }
  | .storeSequence position result =>
    some { s with
      pop := .storeTail position result
      ring := { s.ring with
        sequence := Function.update s.ring.sequence (slot capacity position) (size (position + capacity)) }
      released := s.released + 1 }
  | .storeTail position result =>
    some { s with pop := .returned (some result), ring := { s.ring with tail := size (position + 1) } }
  | .returned result => some { s with pop := .idle, popped := s.popped ++ result.toList }

def step (s : State ι T) : Event ι T → Option (State ι T)
  | .callPush p value =>
    match s.push p with
    | .idle => some (s.setPush p (.loadHead value))
    | _ => none
  | .push p fails => s.pushStep capacity p fails
  | .callPop =>
    match s.pop with
    | .idle => some { s with pop := .loadTail }
    | _ => none
  | .pop => s.popStep capacity

abbrev Reachable (memory : Nat → T) : State ι T → Prop :=
  Reach (step capacity) (fun _ _ => True) (start memory)

end State

/-- The position whose data a producer has claimed and not yet published, with its value. -/
def Pushing.writing? : Pushing T → Option (Nat × T)
  | .writeData value position => some (position, value)
  | .storeSequence value position => some (position, value)
  | _ => none

/-- The position whose data the consumer reads and has not yet released. -/
def Popping.reading? : Popping T → Option Nat
  | .readData position => some position
  | .storeSequence position _ => some position
  | _ => none

/-- What the buffer promises in a state and for the next step. -/
structure Correct (capacity : Nat) (s : State ι T) : Prop where
  writers : ∀ p p' w w', p ≠ p' → (s.push p).writing? = some w → (s.push p').writing? = some w' →
    slot capacity w.1 ≠ slot capacity w'.1
  reader : ∀ p w q, (s.push p).writing? = some w → s.pop.reading? = some q → slot capacity w.1 ≠ slot capacity q
  won : s.ring.head = s.claims.length ∧ ∀ p w, (s.push p).writing? = some w → s.claims[w.1]? = some w.2
  popped : s.popped <+: s.claims
  none_only : ∀ position s', s.pop = .loadSequence position → s.step capacity .pop = some s' →
    s'.pop = .returned none → s.popped.length ∉ s.published
  false_only : ∀ p fails value position s', s.push p = .loadSequence value position →
    s.step capacity (.push p fails) = some s' → s'.push p = .returned false → s.released + capacity ≤ s.claims.length

end

end Elsa.MpscRingBuffer
