import Mathlib.Data.List.Infix
import Elsa.Base.RoundRobin
import Elsa.Base.Tagged
import Elsa.Engine.Outbox
import Elsa.InterProcess.RingRuns
import Elsa.MarketData.Codec
import Elsa.Transport.Connections

/-!
# The market data feed

The engine publishes trades and snapshots of its books in ring buffers, two for each symbol.  The market data
processor goes round the buffers, takes at most one value from each at a time, and sends it as JSON to all its
websocket connections.  The two processes run step by step in any interleaving: a step of theirs is one access to the
shared memory of a buffer.  `try_publish` gives up when its buffer is full; the engine does not try again.

What is sent to a client of one buffer was made by the engine for this buffer in this order.  As long as no send to
the client failed and the buffer refused nothing there is no gap: it is all that the engine made from some value on to
another (`client_feed`).

The engine has handled a message before it publishes the trades of it.  In the program it publishes each trade when it
is made; the books are seen by nobody else meanwhile.  A message at which an assertion fails is no step here: in the
program the trades before it are published and the process ends.
-/

namespace Elsa

open Base LimitOrderBook MarketData MarketData.NlohmannJson MpscRingBuffer

/-! ### What a ring buffer does with the values of one producer -/

namespace MpscRingBuffer

variable {T : Type}

/-- The value that `try_push` has not claimed a position for. -/
def Pushing.unclaimed : Pushing T → List T
  | .loadHead value => [value]
  | .loadSequence value _ => [value]
  | .compareExchange value _ => [value]
  | _ => []

/-- The value with which `try_push` gives up in a step. -/
def refusal : Pushing T → Pushing T → List T
  | .loadSequence value _, .returned false => [value]
  | _, _ => []

namespace State

variable {capacity : Nat} {s s' : State Unit T}

/-- The values that were handed to `try_push` and not refused. -/
def entered (s : State Unit T) : List T := s.claims ++ (s.push ()).unclaimed

private theorem entered_callPush {value : T} (h : s.step capacity (.callPush () value) = some s') :
    s'.entered = s.entered ++ [value] ∧ s'.popped = s.popped := by
  simp only [step] at h
  split at h
  · rename_i hidle
    cases h
    refine ⟨?_, rfl⟩
    simp [entered, setPush, hidle, Pushing.unclaimed]
  · cases h

/-- A step of `try_push` refuses its value or keeps it. -/
private theorem entered_push {fails : Bool} (h : s.step capacity (.push () fails) = some s') :
    s.entered = s'.entered ++ refusal (s.push ()) (s'.push ()) ∧ s'.popped = s.popped := by
  simp only [step, pushStep] at h
  unfold entered
  cases hpc : s.push () with
  | idle =>
    rw [hpc] at h
    cases h
  | loadHead value =>
    simp only [hpc, Option.some.injEq] at h
    subst h
    exact ⟨by simp [setPush, Pushing.unclaimed, refusal], rfl⟩
  | loadSequence value position =>
    simp only [hpc, Option.some.injEq] at h
    subst h
    refine ⟨?_, rfl⟩
    rw [setPush_push_self]
    split
    · simp [setPush, Pushing.unclaimed, refusal]
    · split
      · simp [setPush, Pushing.unclaimed, refusal]
      · simp [setPush, Pushing.unclaimed, refusal]
  | compareExchange value position =>
    simp only [hpc] at h
    split at h
    · cases h
      exact ⟨by simp [setPush, Pushing.unclaimed, refusal], rfl⟩
    · cases h
      exact ⟨by simp [setPush, Pushing.unclaimed, refusal], rfl⟩
  | writeData value position =>
    simp only [hpc, Option.some.injEq] at h
    subst h
    exact ⟨by simp [setPush, Pushing.unclaimed, refusal], rfl⟩
  | storeSequence value position =>
    simp only [hpc, Option.some.injEq] at h
    subst h
    exact ⟨by simp [setPush, Pushing.unclaimed, refusal], rfl⟩
  | returned result =>
    simp only [hpc, Option.some.injEq] at h
    subst h
    exact ⟨by simp [setPush, Pushing.unclaimed, refusal], rfl⟩

/-- The value that the consumer takes in a step. -/
def taken (s : State Unit T) : List T :=
  match s.pop with
  | .returned result => result.toList
  | _ => []

private theorem taken_of_not_returned (h : ∀ result, s.pop ≠ .returned result) : s.taken = [] := by
  unfold taken
  split
  · rename_i result hpop
    exact absurd hpop (h result)
  · rfl

private theorem entered_callPop (h : s.step capacity .callPop = some s') :
    s'.entered = s.entered ∧ s'.popped = s.popped := by
  simp only [step] at h
  split at h
  · cases h
    exact ⟨rfl, rfl⟩
  · cases h

private theorem entered_pop (h : s.step capacity .pop = some s') :
    s'.entered = s.entered ∧ s'.popped = s.popped ++ s.taken := by
  simp only [step, popStep] at h
  unfold taken
  split at h <;> rename_i hpc <;> rw [hpc]
  · cases h
  all_goals
    cases h
    simp [entered]

end State

end MpscRingBuffer

/-! ### The two processes -/

/-- What the engine publishes. -/
inductive Publication
  | snapshot (s : TopOrderBookLevelAggregates)
  | trade (t : Trade)
deriving DecidableEq

def Publication.toJson {J : Type} [NlohmannJson J] : Publication → J
  | .snapshot s => s.toJson
  | .trade t => t.toJson

inductive FeedKind
  | snapshots
  | trades
deriving DecidableEq

/-- The name of a ring buffer. -/
structure Channel where
  kind : FeedKind
  symbol : String
deriving DecidableEq

/-- The ring buffers in the order in which the market data processor goes round. -/
def channels (activeSymbols : List String) : List Channel :=
  activeSymbols.map (.mk .snapshots) ++ activeSymbols.map (.mk .trades)

/-- `OrderbookSnapshotRingBufferCapacity` and `TradeRingBufferCapacity`. -/
def ringBufferCapacity : Nat := 1024

/-- The two processes.  What the engine has made so far, what it has handed to `try_publish`, what a full buffer
refused and what the market data processor has sent are recorded next to them. -/
structure Feed (J : Type) where
  me : MatchingEngine
  /-- The trades or snapshots that the engine has yet to publish. -/
  pending : List (Channel × Publication)
  /-- The ring buffer in which the engine is in `try_push`. -/
  current : Option Channel
  rings : Channel → MpscRingBuffer.State Unit Publication
  /-- The ring buffer that the market data processor is at. -/
  cursor : Nat
  server : WebsocketServer J
  made : List (Channel × Publication)
  published : List (Channel × Publication)
  refused : List (Channel × Publication)
  broadcasts : List (Channel × Publication)

inductive FeedEvent
  /-- The engine handles a message. -/
  | process (d : Delivery)
  /-- The engine takes a snapshot of all books, in the order of their map. -/
  | flush (symbols : List String) (nowTsMs : String → Nat)
  /-- The engine goes on in `try_publish`. -/
  | engine (fails : Bool)
  /-- The market data processor goes on; `ok` is what the sends of `send_to_all` return. -/
  | processor (ok : Nat → Bool)
  /-- A client connects. -/
  | connect

/-- The trades of a message, for the buffer of its symbol. -/
def tradesOf (draw : Nat → Stamp) (me : MatchingEngine) (c : Container) : List (Channel × Publication) :=
  match c with
  | .newOrderSingle o => (me.tradesMade draw c).map fun t => (⟨.trades, o.symbol⟩, .trade t)
  | _ => []

/-- The snapshot of a book, for the buffer of its symbol. -/
def snapshotOf (A : Arith) (me : MatchingEngine) (nowTsMs : String → Nat) (symbol : String) :
    Option (Channel × Publication) :=
  match me.limitOrderBooks symbol with
  | some b =>
    match b.getTopOrderBookLevelAggregate A (nowTsMs symbol) with
    | .ok snapshot => some (⟨.snapshots, symbol⟩, .snapshot snapshot)
    | .error _ => none
  | none => none

namespace Feed

variable {J : Type} [NlohmannJson J]

section

variable (A : Arith) (activeSymbols : List String)

def start (memory : Channel → Nat → Publication) : Feed J where
  me := .new activeSymbols
  pending := []
  current := none
  rings ch := .start (memory ch)
  cursor := 0
  server := .start
  made := []
  published := []
  refused := []
  broadcasts := []

/-- The engine has something to publish. -/
def toPublish (s : Feed J) (values : List (Channel × Publication)) : Feed J :=
  { s with pending := values, made := s.made ++ values }

def step (s : Feed J) : FeedEvent → Option (Feed J)
  | .process d =>
    match s.pending, s.current, s.me.processContainer A d.draw d.sendOk d.container with
    | [], none, .ok (me, _) => some ({ s with me }.toPublish (tradesOf d.draw s.me d.container))
    | _, _, _ => none
  | .flush symbols nowTsMs =>
    match s.pending, s.current, symbols.mapM (snapshotOf A s.me nowTsMs) with
    | [], none, some values => if symbols.Perm activeSymbols.eraseDups then some (s.toPublish values) else none
    | _, _, _ => none
  | .engine fails =>
    match s.current, s.pending with
    | some ch, _ =>
      ((s.rings ch).step ringBufferCapacity (.push () fails)).map fun ring =>
        { s with
          rings := Function.update s.rings ch ring
          current := if ring.push () = .idle then none else some ch
          refused := s.refused ++ (refusal ((s.rings ch).push ()) (ring.push ())).map fun v => (ch, v) }
    | none, (ch, value) :: pending =>
      ((s.rings ch).step ringBufferCapacity (.callPush () value)).map fun ring =>
        { s with
          rings := Function.update s.rings ch ring
          current := some ch
          pending
          published := s.published ++ [(ch, value)] }
    | none, [] => none
  | .processor ok =>
    match (channels activeSymbols)[s.cursor]? with
    | none => none
    | some ch =>
      match (s.rings ch).pop with
      | .idle =>
        ((s.rings ch).step ringBufferCapacity .callPop).map fun ring =>
          { s with rings := Function.update s.rings ch ring }
      | .returned result =>
        ((s.rings ch).step ringBufferCapacity .pop).map fun ring =>
          { s with
            rings := Function.update s.rings ch ring
            cursor := RoundRobin.next (channels activeSymbols).length s.cursor
            server := result.elim s.server fun value => (s.server.sendToAll ok value.toJson).2
            broadcasts := s.broadcasts ++ result.toList.map fun value => (ch, value) }
      | _ =>
        ((s.rings ch).step ringBufferCapacity .pop).map fun ring =>
          { s with rings := Function.update s.rings ch ring }
  | .connect => some { s with server := s.server.opened }

abbrev Reachable (memory : Channel → Nat → Publication) : Feed J → Prop :=
  Reach (step A activeSymbols) (fun _ _ => True) (start activeSymbols memory)

end

/-! ### What a client has been sent -/

end Feed

/-- What was sent to a connection are some of the broadcasts, in their order; the last ones if no send failed. -/
def Connection.Heard {J : Type} [NlohmannJson J] (c : Connection J) (broadcasts : List (Channel × Publication)) :
    Prop :=
  ∃ feed : List (Channel × Publication), c.messageStore = feed.map (fun p => p.2.toJson) ∧ feed.Sublist broadcasts ∧
    (c.failures = 0 → feed <:+ broadcasts)

private theorem Connection.Heard.sent {J : Type} [NlohmannJson J] {c : Connection J}
    {broadcasts : List (Channel × Publication)} (h : c.Heard broadcasts) (ok : Bool) (p : Channel × Publication) :
    (c.sent ok p.2.toJson).Heard (broadcasts ++ [p]) := by
  obtain ⟨feed, hstore, hsub, hlast⟩ := h
  cases ok with
  | true =>
    refine ⟨feed ++ [p], ?_, hsub.append_right [p], fun hnone => ?_⟩
    · show c.messageStore ++ [p.2.toJson] = _
      rw [hstore, List.map_append]
      rfl
    · obtain ⟨first, rfl⟩ := hlast hnone
      exact ⟨first, (List.append_assoc _ _ _).symm⟩
  | false =>
    exact ⟨feed, hstore, hsub.trans (List.sublist_append_left _ _), fun hnone => absurd hnone (Nat.succ_ne_zero _)⟩

namespace Feed

variable {J : Type} [NlohmannJson J]

/-- What every step keeps, buffer by buffer: what entered a buffer was published there, all of it if nothing was
refused, and what left it was sent. -/
structure Follows (memory : Channel → Nat → Publication) (s : Feed J) : Prop where
  made_eq : s.made = s.published ++ s.pending
  reachable : ∀ ch, State.Reachable ringBufferCapacity (memory ch) (s.rings ch)
  entered : ∀ ch, (s.rings ch).entered.Sublist (tagged ch s.published)
  complete : ∀ ch, tagged ch s.refused = [] → (s.rings ch).entered = tagged ch s.published
  popped : ∀ ch, tagged ch s.broadcasts = (s.rings ch).popped
  clients : ∀ c ∈ s.server.connections, c.Heard s.broadcasts

variable {A : Arith} {activeSymbols : List String} {memory : Channel → Nat → Publication} {s s' : Feed J}

private theorem start_follows : (start activeSymbols memory : Feed J).Follows memory where
  made_eq := rfl
  reachable _ := .start
  entered _ := List.Sublist.refl []
  complete _ _ := rfl
  popped _ := rfl
  clients _ hc := absurd hc List.not_mem_nil

private theorem Follows.toPublish (h : s.Follows memory) (hnone : s.pending = [])
    (values : List (Channel × Publication)) :
    (s.toPublish values).Follows memory where
  made_eq := by
    have hmade := h.made_eq
    rw [hnone, List.append_nil] at hmade
    show s.made ++ values = _
    rw [hmade]
    rfl
  reachable := h.reachable
  entered := h.entered
  complete := h.complete
  popped := h.popped
  clients := h.clients

private theorem Follows.reachable_update (h : s.Follows memory) {ch : Channel}
    {e : MpscRingBuffer.Event Unit Publication} {ring : State Unit Publication}
    (hring : (s.rings ch).step ringBufferCapacity e = some ring) (k : Channel) :
    State.Reachable ringBufferCapacity (memory k) (Function.update s.rings ch ring k) :=
  Function.forall_update_iff _ (fun k ring => State.Reachable ringBufferCapacity (memory k) ring) |>.2
    ⟨(h.reachable ch).next trivial hring, fun k _ => h.reachable k⟩ k

/-- A step of the engine in `try_push`. -/
private theorem Follows.push (h : s.Follows memory) {ch : Channel} {fails : Bool} {ring : State Unit Publication}
    (hring : (s.rings ch).step ringBufferCapacity (.push () fails) = some ring) (current : Option Channel) :
    Follows memory { s with
      rings := Function.update s.rings ch ring
      current
      refused := s.refused ++ (refusal ((s.rings ch).push ()) (ring.push ())).map fun v => (ch, v) } := by
  obtain ⟨hentered, hpopped⟩ := State.entered_push hring
  refine ⟨h.made_eq, ?_, ?_, ?_, ?_, h.clients⟩
  · exact h.reachable_update hring
  · refine Function.forall_update_iff _ (fun k (r : State Unit Publication) =>
      r.entered.Sublist (tagged k s.published)) |>.2 ⟨?_, fun k _ => h.entered k⟩
    have hold := h.entered ch
    rw [hentered] at hold
    exact (List.sublist_append_left _ _).trans hold
  · intro k hrefused
    rw [tagged_append, List.append_eq_nil_iff, tagged_map] at hrefused
    obtain ⟨hold, hnew⟩ := hrefused
    by_cases hk : k = ch
    · subst hk
      rw [if_pos rfl] at hnew
      rw [hnew, List.append_nil] at hentered
      show (Function.update s.rings k ring k).entered = _
      rw [Function.update_self, ← hentered]
      exact h.complete k hold
    · show (Function.update s.rings ch ring k).entered = _
      rw [Function.update_of_ne hk]
      exact h.complete k hold
  · refine Function.forall_update_iff _ (fun k (r : State Unit Publication) => tagged k s.broadcasts = r.popped) |>.2
      ⟨hpopped ▸ h.popped ch, fun k _ => h.popped k⟩

/-- The engine calls `try_push`. -/
private theorem Follows.callPush (h : s.Follows memory) {ch : Channel} {value : Publication}
    {pending : List (Channel × Publication)} (hpending : s.pending = (ch, value) :: pending)
    {ring : State Unit Publication}
    (hring : (s.rings ch).step ringBufferCapacity (.callPush () value) = some ring) :
    Follows memory { s with
      rings := Function.update s.rings ch ring
      current := some ch
      pending
      published := s.published ++ [(ch, value)] } := by
  obtain ⟨hentered, hpopped⟩ := State.entered_callPush hring
  have hother : ∀ k, k ≠ ch → tagged k (s.published ++ [(ch, value)]) = tagged k s.published := fun k hk => by
    rw [tagged_append, tagged_singleton, if_neg (Ne.symm hk), List.append_nil]
  have hself : tagged ch (s.published ++ [(ch, value)]) = tagged ch s.published ++ [value] := by
    rw [tagged_append, tagged_singleton, if_pos rfl]
  refine ⟨?_, ?_, ?_, ?_, ?_, h.clients⟩
  · show s.made = s.published ++ [(ch, value)] ++ pending
    rw [h.made_eq, hpending, List.append_assoc]
    rfl
  · exact h.reachable_update hring
  · refine Function.forall_update_iff _ (fun k (r : State Unit Publication) =>
      r.entered.Sublist (tagged k (s.published ++ [(ch, value)]))) |>.2 ⟨?_, fun k hk => hother k hk ▸ h.entered k⟩
    rw [hentered, hself]
    exact (h.entered ch).append_right [value]
  · refine Function.forall_update_iff _
      (fun k (r : State Unit Publication) => tagged k s.refused = [] →
      r.entered = tagged k (s.published ++ [(ch, value)])) |>.2
      ⟨fun hnone => ?_, fun k hk hnone => hother k hk ▸ h.complete k hnone⟩
    rw [hentered, hself, h.complete ch hnone]
  · refine Function.forall_update_iff _ (fun k (r : State Unit Publication) => tagged k s.broadcasts = r.popped) |>.2
      ⟨hpopped ▸ h.popped ch, fun k _ => h.popped k⟩

/-- A step of the market data processor: what it takes from a buffer is sent to all connections. -/
private theorem Follows.pop (h : s.Follows memory) {ch : Channel} {e : MpscRingBuffer.Event Unit Publication}
    {ring : State Unit Publication} (hring : (s.rings ch).step ringBufferCapacity e = some ring)
    (result : Option Publication) (hentered : ring.entered = (s.rings ch).entered)
    (hpopped : ring.popped = (s.rings ch).popped ++ result.toList) (cursor : Nat) (ok : Nat → Bool) :
    Follows memory { s with
      rings := Function.update s.rings ch ring
      cursor
      server := result.elim s.server fun value => (s.server.sendToAll ok value.toJson).2
      broadcasts := s.broadcasts ++ result.toList.map fun value => (ch, value) } := by
  refine ⟨h.made_eq, ?_, ?_, ?_, ?_, ?_⟩
  · exact h.reachable_update hring
  · refine Function.forall_update_iff _ (fun k (r : State Unit Publication) =>
      r.entered.Sublist (tagged k s.published)) |>.2 ⟨hentered ▸ h.entered ch, fun k _ => h.entered k⟩
  · refine Function.forall_update_iff _ (fun k (r : State Unit Publication) => tagged k s.refused = [] →
      r.entered = tagged k s.published) |>.2 ⟨fun hnone => hentered.trans (h.complete ch hnone),
      fun k _ => h.complete k⟩
  · intro k
    show _ = (Function.update s.rings ch ring k).popped
    rw [tagged_append, tagged_map, h.popped k]
    by_cases hk : k = ch
    · subst hk
      rw [if_pos rfl, Function.update_self, hpopped]
    · rw [if_neg (Ne.symm hk), Function.update_of_ne hk, List.append_nil]
  · cases result with
    | none =>
      intro c hc
      show c.Heard (s.broadcasts ++ [])
      rw [List.append_nil]
      exact h.clients c hc
    | some value =>
      intro c hc
      simp only [Option.elim_some, WebsocketServer.sendToAll_connections] at hc
      obtain ⟨c', hc', rfl⟩ := List.mem_map.1 hc
      exact (h.clients c' hc').sent (ok c'.id) (ch, value)

/-- A step of the market data processor that takes nothing. -/
private theorem Follows.pass (h : s.Follows memory) {ch : Channel} {e : MpscRingBuffer.Event Unit Publication}
    {ring : State Unit Publication} (hring : (s.rings ch).step ringBufferCapacity e = some ring)
    (hentered : ring.entered = (s.rings ch).entered) (hpopped : ring.popped = (s.rings ch).popped) :
    Follows memory { s with rings := Function.update s.rings ch ring } := by
  have hnothing : ring.popped = (s.rings ch).popped ++ Option.toList none := by
    rw [hpopped]
    exact (List.append_nil _).symm
  have hpass := h.pop hring none hentered hnothing s.cursor fun _ => true
  simpa only [Option.elim_none, Option.toList_none, List.map_nil, List.append_nil] using hpass

theorem Follows.step (h : s.Follows memory) {e : FeedEvent} (hstep : s.step A activeSymbols e = some s') :
    s'.Follows memory := by
  cases e with
  | process d =>
    simp only [Feed.step] at hstep
    split at hstep
    · rename_i me out hnone hcurrent hme
      cases hstep
      exact Follows.toPublish (s := { s with me }) ⟨h.made_eq, h.reachable, h.entered, h.complete, h.popped,
        h.clients⟩ hnone _
    · cases hstep
  | flush symbols nowTsMs =>
    simp only [Feed.step] at hstep
    split at hstep
    · rename_i values hnone hcurrent hvalues
      split at hstep
      · cases hstep
        exact h.toPublish hnone values
      · cases hstep
    · cases hstep
  | engine fails =>
    simp only [Feed.step] at hstep
    split at hstep
    · obtain ⟨ring, hring, rfl⟩ := Option.map_eq_some_iff.1 hstep
      exact h.push hring _
    · rename_i ch value pending hcurrent hpending
      obtain ⟨ring, hring, rfl⟩ := Option.map_eq_some_iff.1 hstep
      exact h.callPush hpending hring
    · cases hstep
  | processor ok =>
    simp only [Feed.step] at hstep
    split at hstep
    · cases hstep
    · rename_i ch hch
      split at hstep
      · obtain ⟨ring, hring, rfl⟩ := Option.map_eq_some_iff.1 hstep
        obtain ⟨hentered, hpopped⟩ := State.entered_callPop hring
        exact h.pass hring hentered hpopped
      · rename_i result hpop
        obtain ⟨ring, hring, rfl⟩ := Option.map_eq_some_iff.1 hstep
        obtain ⟨hentered, hpopped⟩ := State.entered_pop hring
        rw [State.taken, hpop] at hpopped
        exact h.pop hring result hentered hpopped _ ok
      · rename_i hidle hreturned
        obtain ⟨ring, hring, rfl⟩ := Option.map_eq_some_iff.1 hstep
        obtain ⟨hentered, hpopped⟩ := State.entered_pop hring
        rw [State.taken_of_not_returned hreturned, List.append_nil] at hpopped
        exact h.pass hring hentered hpopped
  | connect =>
    cases hstep
    refine ⟨h.made_eq, h.reachable, h.entered, h.complete, h.popped, fun c hc => ?_⟩
    rcases List.mem_append.1 hc with hc | hc
    · exact h.clients c hc
    · rw [List.mem_singleton.1 hc]
      exact ⟨[], rfl, List.nil_sublist _, fun _ => List.nil_suffix⟩

private theorem follows_of_reachable (h : Reachable A activeSymbols memory s) : s.Follows memory :=
  h.invariant start_follows fun _ _ _ hs _ hstep => hs.step hstep

/-- What left a buffer is the first part of what entered it. -/
private theorem Follows.popped_prefix (h : s.Follows memory) (hb : s.made.length + ringBufferCapacity ≤ 2 ^ 63)
    (ch : Channel) : (s.rings ch).popped <+: (s.rings ch).entered := by
  have hclaims : (s.rings ch).claims.length ≤ s.made.length := by
    calc (s.rings ch).claims.length ≤ (s.rings ch).entered.length := (List.prefix_append _ _).length_le
      _ ≤ (tagged ch s.published).length := (h.entered ch).length_le
      _ ≤ s.published.length := length_tagged_le ch s.published
      _ ≤ s.made.length := by
        rw [h.made_eq, List.length_append]
        exact Nat.le_add_right _ _
  have hcorrect : Correct (2 ^ 10) (s.rings ch) :=
    correct_of_reachable (by decide) (h.reachable ch) ((Nat.add_le_add_right hclaims _).trans hb)
  exact hcorrect.popped.trans (List.prefix_append _ _)

/-- In every run that makes at most `2 ^ 63 - 1024` trades and snapshots: what is sent to a client of one buffer was
made for it in this order, and without a gap if no send to the client failed and the buffer refused nothing. -/
theorem client_feed (h : Reachable A activeSymbols memory s) (hb : s.made.length + ringBufferCapacity ≤ 2 ^ 63)
    {c : Connection J} (hc : c ∈ s.server.connections) :
    ∃ feed : List (Channel × Publication), c.messageStore = feed.map (fun p => p.2.toJson) ∧
      ∀ ch, (tagged ch feed).Sublist (tagged ch s.made) ∧
        (c.failures = 0 → tagged ch s.refused = [] → tagged ch feed <:+: tagged ch s.made) := by
  have hf := follows_of_reachable h
  have hmade : ∀ ch, tagged ch s.published <+: tagged ch s.made := fun ch => by
    rw [hf.made_eq, tagged_append]
    exact List.prefix_append _ _
  obtain ⟨feed, hstore, hsub, hlast⟩ := hf.clients c hc
  refine ⟨feed, hstore, fun ch => ⟨?_, fun hnone hrefused => ?_⟩⟩
  · have hsent : (tagged ch feed).Sublist (s.rings ch).popped := hf.popped ch ▸ tagged_sublist ch hsub
    exact hsent.trans ((hf.popped_prefix hb ch).sublist.trans ((hf.entered ch).trans (hmade ch).sublist))
  · have hsent : tagged ch feed <:+ (s.rings ch).popped := hf.popped ch ▸ tagged_suffix ch (hlast hnone)
    have hpopped := hf.popped_prefix hb ch
    rw [hf.complete ch hrefused] at hpopped
    exact infix_of_suffix_of_prefix hsent (hpopped.trans (hmade ch))

/-- A trade is made and published, and the processor finds no snapshot and then the trade. -/
def sampleFeed : List FeedEvent :=
  [.process (Outbox.sampleOrder 1 "GME" .ask 10 fun _ => true), .connect,
    .process (Outbox.sampleOrder 2 "GME" .bid 4 fun _ => true)] ++ List.replicate 7 (.engine false) ++
    List.replicate 11 (.processor fun _ => true)

/-- Memory that is all zero. -/
def sampleMemory (_ : Channel) (_ : Nat) : Publication := .trade ⟨"", 0, 0, "", "", "", 0, 0, false, 0⟩

theorem client_feed_sampleFeed : ∃ (s : Feed Json) (c : Connection Json), c ∈ s.server.connections ∧
    c.messageStore.length = 1 ∧ (tagged ⟨.trades, "GME"⟩ s.made).length = 1 ∧
    ∃ feed : List (Channel × Publication), c.messageStore = feed.map (fun p => p.2.toJson) ∧
      tagged ⟨.trades, "GME"⟩ feed <:+: tagged ⟨.trades, "GME"⟩ s.made := by
  have hrun : (exec (step .exact ["GME"]) (start ["GME"] sampleMemory : Feed Json) sampleFeed).any (fun s =>
      decide (s.made.length = 1 ∧ (tagged ⟨.trades, "GME"⟩ s.made).length = 1 ∧
        tagged ⟨.trades, "GME"⟩ s.refused = [] ∧
        ∃ c ∈ s.server.connections, c.messageStore.length = 1 ∧ c.failures = 0)) = true := by decide +kernel
  obtain ⟨s, hreach, hs⟩ := Reach.exists_of_exec hrun
  obtain ⟨hmade, htrade, hrefused, c, hc, hlength, hnone⟩ := of_decide_eq_true hs
  obtain ⟨feed, hstore, hfeed⟩ := client_feed hreach (by rw [hmade]; decide) hc
  exact ⟨s, c, hc, hlength, htrade, feed, hstore, (hfeed _).2 hnone hrefused⟩

end Feed

end Elsa
