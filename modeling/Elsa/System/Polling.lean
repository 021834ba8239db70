import Elsa.Base.RoundRobin
import Elsa.System.Agreement

/-!
# The loop of the order manager

`OrderManager::run` looks at the connections of the gateways in turn: it takes at most one request from the connection
at its iterator, moves the iterator, and takes at most one response of the matching engine.  A market bid is handled
when its fill cost has come; the iterator stays at its gateway until then.  Gateways may connect while the loop runs.
The iterator points into a vector; a connection for which the vector has no room would move the vector and leave the
iterator dangling, and is no step here.

* The requests of a gateway are handled in the order in which they arrive, each one once, and the first `m` of them
  within `m` rounds over the gateways, whatever the other gateways send (`served_within`).
* What the loop does to the exchange is a run of the exchange (`reach_of_answers`), so all that holds in every run of
  the exchange holds here.
-/

namespace Elsa

open Base RoundRobin

/-- What the loop does next. -/
inductive LoopPart
  | requests
  | responses
deriving DecidableEq, Repr

structure Polling where
  exchange : Exchange
  gatewayConnectionIds : List Int
  /-- The capacity of the vector. -/
  capacity : Nat
  gatewayIdsIt : Nat
  part : LoopPart
  /-- The messages of each connection that were received and not taken. -/
  inbox : Int → List Container

inductive PollingEvent
  | connect (id : Int)
  | arrive (gatewayId : Int) (container : Container)
  | poll (ids : Nat → String)
  | answer (ids : Nat → String)
  | respond (ids : Nat → String)
  | matching (draw : Nat → Stamp)

namespace PollingEvent

def isPoll : PollingEvent → Bool
  | .poll _ => true
  | _ => false

/-- The messages that an event brings to a gateway's connection. -/
def arrivals (gatewayId : Int) : PollingEvent → List Container
  | .arrive gw c => if gw = gatewayId then [c] else []
  | _ => []

/-- Messages have the shape that the gateway gives them. -/
def Shaped : PollingEvent → Prop
  | .arrive _ c => GatewayShaped c
  | _ => True

end PollingEvent

namespace Polling

variable (cfg : Config) (A : Arith)

/-- The loop is entered when there is a connection; the iterator is at the first one. -/
def start (exchange : Exchange) (first : Int) (others : List Int) (capacity : Nat) (inbox : Int → List Container) :
    Polling :=
  ⟨exchange, first :: others, capacity, 0, .requests, inbox⟩

/-- The request half of a pass is over. -/
def advance (s : Polling) : Polling :=
  { s with gatewayIdsIt := next s.gatewayConnectionIds.length s.gatewayIdsIt, part := .responses }

/-- A request was taken: the request half of a pass is over unless the order manager waits for a fill cost. -/
def handled (s : Polling) : Polling := if s.exchange.waiting.isNone then s.advance else s

/-- A step, and the request that it takes with its gateway. -/
def step (s : Polling) : PollingEvent → Option (List (Int × Container) × Polling)
  | .connect id =>
    if s.gatewayConnectionIds.length < s.capacity ∧ id ∉ s.gatewayConnectionIds then
      some ([], { s with gatewayConnectionIds := s.gatewayConnectionIds ++ [id] })
    else none
  | .arrive gw c => some ([], { s with inbox := Function.update s.inbox gw (s.inbox gw ++ [c]) })
  | .poll ids =>
    match s.part, s.exchange.waiting, s.gatewayConnectionIds[s.gatewayIdsIt]? with
    | .requests, none, some gw =>
      match s.inbox gw with
      | [] => some ([], s.advance)
      | c :: rest =>
        (s.exchange.step cfg A (.request c gw ids)).map fun exchange =>
          ([(gw, c)], { s with exchange, inbox := Function.update s.inbox gw rest }.handled)
    | _, _, _ => none
  | .answer ids => (s.exchange.step cfg A (.answer ids)).map fun exchange => ([], { s with exchange }.advance)
  | .respond ids =>
    match s.part, s.exchange.waiting with
    | .responses, none =>
      match s.exchange.responses with
      | [] => some ([], { s with part := .requests })
      | _ :: _ =>
        (s.exchange.step cfg A (.response ids)).map fun exchange => ([], { s with exchange, part := .requests })
    | _, _ => none
  | .matching draw => (s.exchange.step cfg A (.matching draw)).map fun exchange => ([], { s with exchange })

/-- The requests of one gateway among those taken. -/
def takenFrom (gatewayId : Int) (taken : List (Int × Container)) : List Container :=
  (taken.filter fun t => t.1 = gatewayId).map Prod.snd

/-! ### What a step can do -/

inductive Turn (s : Polling) : PollingEvent → List (Int × Container) → Polling → Prop
  | connected (id : Int) (hroom : s.gatewayConnectionIds.length < s.capacity) :
      Turn s (.connect id) [] { s with gatewayConnectionIds := s.gatewayConnectionIds ++ [id] }
  | arrived (gw : Int) (c : Container) :
      Turn s (.arrive gw c) [] { s with inbox := Function.update s.inbox gw (s.inbox gw ++ [c]) }
  | idle (ids : Nat → String) (gw : Int) (hwait : s.exchange.waiting = none)
      (hgw : s.gatewayConnectionIds[s.gatewayIdsIt]? = some gw) (hin : s.inbox gw = []) :
      Turn s (.poll ids) [] s.advance
  | took (ids : Nat → String) (gw : Int) (c : Container) (rest : List Container) (exchange : Exchange)
      (hwait : s.exchange.waiting = none) (hgw : s.gatewayConnectionIds[s.gatewayIdsIt]? = some gw)
      (hin : s.inbox gw = c :: rest) (hstep : s.exchange.step cfg A (.request c gw ids) = some exchange) :
      Turn s (.poll ids) [(gw, c)] { s with exchange, inbox := Function.update s.inbox gw rest }.handled
  | answered (ids : Nat → String) (exchange : Exchange) (hwait : s.exchange.waiting ≠ none)
      (hdone : exchange.waiting = none) (hstep : s.exchange.step cfg A (.answer ids) = some exchange) :
      Turn s (.answer ids) [] { s with exchange }.advance
  /-- A step with which no request begins or ends: of the engine, or of the order manager with a response. -/
  | inside (e : PollingEvent) (exchange : Exchange) (part : LoopPart) (hpoll : e.isPoll = false)
      (harrivals : ∀ gw, e.arrivals gw = []) (hwait : exchange.waiting = s.exchange.waiting)
      (hexchange : exchange = s.exchange ∨ ∃ ev, Exchange.Fed ev ∧ s.exchange.step cfg A ev = some exchange) :
      Turn s e [] { s with exchange, part }

section steps

variable {cfg : Config} {A : Arith} {s s' t : Polling} {e : PollingEvent} {r : List (Int × Container)}

private theorem waiting_answer {x x' : Exchange} {ids : Nat → String} (h : x.step cfg A (.answer ids) = some x') :
    x.waiting ≠ none ∧ x'.waiting = none := by
  cases Exchange.step_iff.1 h with
  | answer o gw a answers ids om out hw ha hr => exact ⟨hw ▸ Option.some_ne_none _, rfl⟩

private theorem waiting_matching {x x' : Exchange} {draw : Nat → Stamp}
    (h : x.step cfg A (.matching draw) = some x') : x'.waiting = x.waiting := by
  cases Exchange.step_iff.1 h with
  | matching => rfl

private theorem waiting_response {x x' : Exchange} {ids : Nat → String}
    (h : x.step cfg A (.response ids) = some x') : x'.waiting = x.waiting := by
  cases Exchange.step_iff.1 h with
  | response => rfl

theorem turn_of_step (h : s.step cfg A e = some (r, s')) : s.Turn cfg A e r s' := by
  cases e with
  | connect id =>
    simp only [step, Option.ite_none_right_eq_some, Option.some.injEq, Prod.mk.injEq] at h
    obtain ⟨⟨hroom, -⟩, rfl, rfl⟩ := h
    exact .connected id hroom
  | arrive gw c =>
    simp only [step, Option.some.injEq, Prod.mk.injEq] at h
    obtain ⟨rfl, rfl⟩ := h
    exact .arrived gw c
  | poll ids =>
    simp only [step] at h
    split at h
    · rename_i gw hpart hwait hgw
      split at h
      · rename_i hin
        cases h
        exact .idle ids gw hwait hgw hin
      · rename_i c rest hin
        obtain ⟨x, hx, h⟩ := Option.map_eq_some_iff.1 h
        cases h
        exact .took ids gw c rest x hwait hgw hin hx
    · cases h
  | answer ids =>
    obtain ⟨x, hx, h⟩ := Option.map_eq_some_iff.1 h
    cases h
    obtain ⟨hwait, hdone⟩ := waiting_answer hx
    exact .answered ids x hwait hdone hx
  | respond ids =>
    simp only [step] at h
    split at h
    · split at h
      · cases h
        exact .inside (.respond ids) s.exchange .requests rfl (fun _ => rfl) rfl (Or.inl rfl)
      · obtain ⟨x, hx, h⟩ := Option.map_eq_some_iff.1 h
        cases h
        exact .inside (.respond ids) x .requests rfl (fun _ => rfl) (waiting_response hx)
          (Or.inr ⟨.response ids, trivial, hx⟩)
    · cases h
  | matching draw =>
    obtain ⟨x, hx, h⟩ := Option.map_eq_some_iff.1 h
    cases h
    exact .inside (.matching draw) x s.part rfl (fun _ => rfl) (waiting_matching hx)
      (Or.inr ⟨.matching draw, trivial, hx⟩)

@[simp] theorem handled_inbox (s : Polling) : s.handled.inbox = s.inbox := by
  unfold handled
  split <;> rfl

@[simp] theorem handled_exchange (s : Polling) : s.handled.exchange = s.exchange := by
  unfold handled
  split <;> rfl

@[simp] theorem handled_gatewayConnectionIds (s : Polling) :
    s.handled.gatewayConnectionIds = s.gatewayConnectionIds := by
  unfold handled
  split <;> rfl

private theorem handled_it_lt (hit : s.gatewayIdsIt < s.gatewayConnectionIds.length) :
    s.handled.gatewayIdsIt < s.gatewayConnectionIds.length := by
  unfold handled
  split
  · exact next_lt hit
  · exact hit

/-! ### The requests of one gateway -/

/-- A step takes the request of a gateway from the front of its messages and adds the arrivals at their end. -/
private theorem Turn.conserves (h : s.Turn cfg A e r s') (gw : Int) :
    takenFrom gw r ++ s'.inbox gw = s.inbox gw ++ e.arrivals gw := by
  cases h with
  | connected id hroom => exact (List.append_nil _).symm
  | arrived gw' c =>
    by_cases hgw : gw' = gw
    · subst hgw
      simp [takenFrom, PollingEvent.arrivals]
    · have hne : gw ≠ gw' := fun h => hgw h.symm
      simp [takenFrom, PollingEvent.arrivals, hgw, hne]
  | idle ids gw' hwait hgw' hin => exact (List.append_nil _).symm
  | took ids gw' c rest x hwait hgw' hin hstep =>
    by_cases hgw : gw' = gw
    · subst hgw
      simp [takenFrom, PollingEvent.arrivals, hin]
    · have hne : gw ≠ gw' := fun h => hgw h.symm
      simp [takenFrom, PollingEvent.arrivals, hgw, hne]
  | answered ids x hwait hdone hstep => exact (List.append_nil _).symm
  | inside e x part hpoll harrivals hwait hx =>
    rw [harrivals]
    exact (List.append_nil _).symm

/-- Connections stay at their places, and the iterator stays in the vector. -/
private theorem Turn.places (h : s.Turn cfg A e r s') (hit : s.gatewayIdsIt < s.gatewayConnectionIds.length) :
    s.gatewayConnectionIds <+: s'.gatewayConnectionIds ∧ s'.gatewayIdsIt < s'.gatewayConnectionIds.length := by
  cases h with
  | connected id hroom =>
    refine ⟨List.prefix_append _ _, ?_⟩
    show s.gatewayIdsIt < (s.gatewayConnectionIds ++ [id]).length
    rw [List.length_append]
    omega
  | arrived => exact ⟨List.prefix_refl _, hit⟩
  | idle => exact ⟨List.prefix_refl _, next_lt hit⟩
  | took ids gw c rest x =>
    rw [handled_gatewayConnectionIds]
    exact ⟨List.prefix_refl _, handled_it_lt hit⟩
  | answered => exact ⟨List.prefix_refl _, next_lt hit⟩
  | inside => exact ⟨List.prefix_refl _, hit⟩

variable {es : List PollingEvent} {rs : List (List (Int × Container))}

private theorem fifo_of_answers (h : answers (step cfg A) s es = some (rs, t)) (gw : Int) :
    takenFrom gw rs.flatten ++ t.inbox gw = s.inbox gw ++ es.flatMap (PollingEvent.arrivals gw) := by
  have hflat : takenFrom gw rs.flatten = rs.flatMap (takenFrom gw) := by
    simp only [takenFrom, List.flatMap_def, List.filter_flatten, List.map_flatten, List.map_map]
    rfl
  rw [hflat]
  let contents : Polling → List Container := fun s => s.inbox gw
  have hcall : ∀ s e r s', step cfg A s e = some (r, s') →
      takenFrom gw r ++ contents s' = contents s ++ e.arrivals gw :=
    fun _ _ _ _ hstep => (turn_of_step hstep).conserves gw
  exact answers_conserve hcall h

private theorem prefix_of_answers (h : answers (step cfg A) s es = some (rs, t))
    (hit : s.gatewayIdsIt < s.gatewayConnectionIds.length) : s.gatewayConnectionIds <+: t.gatewayConnectionIds := by
  induction es generalizing s rs with
  | nil =>
    cases h
    exact List.prefix_refl _
  | cons e es ih =>
    obtain ⟨r, s', rs', hstep, hrest, -⟩ := answers_cons_eq_some.1 h
    obtain ⟨hpre, hit'⟩ := (turn_of_step hstep).places hit
    exact hpre.trans (ih hrest hit')

private theorem takenFrom_append (gw : Int) (xs ys : List (Int × Container)) :
    takenFrom gw (xs ++ ys) = takenFrom gw xs ++ takenFrom gw ys := by
  simp [takenFrom]

/-- At least as many as the polls before the one at the connection `j`. -/
def pollsTo (s : Polling) (bound j : Nat) : Nat :=
  if s.exchange.waiting.isNone then ahead bound s.gatewayIdsIt j else aheadAfter bound s.gatewayIdsIt j

private theorem pollsTo_of_waiting {bound j : Nat} (h : s.exchange.waiting = none) :
    s.pollsTo bound j = ahead bound s.gatewayIdsIt j := by
  rw [pollsTo, h]
  rfl

private theorem pollsTo_handled {bound j : Nat} (hit : s.gatewayIdsIt < s.gatewayConnectionIds.length)
    (hj : j < s.gatewayConnectionIds.length) (hle : s.gatewayConnectionIds.length ≤ bound) :
    s.handled.pollsTo bound j ≤ aheadAfter bound s.gatewayIdsIt j := by
  rw [pollsTo, handled_exchange, handled]
  split
  · exact ahead_next_le hit hj hle
  · exact le_refl _

private theorem pollsTo_lt {bound j : Nat} (hit : s.gatewayIdsIt < bound) (hj : j < bound) :
    s.pollsTo bound j < bound := by
  unfold pollsTo
  split
  · exact ahead_lt hit hj
  · exact aheadAfter_lt_bound hit hj

/-- A step that takes no request of the gateway at the place `j` does not lead away from it, and a poll leads
closer. -/
private theorem Turn.approaches {bound j : Nat} {gw : Int} (h : s.Turn cfg A e r s')
    (hit : s.gatewayIdsIt < s.gatewayConnectionIds.length) (hj : s.gatewayConnectionIds[j]? = some gw)
    (hle : s.gatewayConnectionIds.length ≤ bound) (hne : s.inbox gw ≠ []) :
    (takenFrom gw r).length = 1 ∨ takenFrom gw r = [] ∧
      s'.pollsTo bound j + (if e.isPoll then 1 else 0) ≤ s.pollsTo bound j := by
  have hjlt : j < s.gatewayConnectionIds.length := (List.getElem?_eq_some_iff.1 hj).1
  -- a poll at another gateway is one at another place
  have hless : ∀ gw', s.gatewayConnectionIds[s.gatewayIdsIt]? = some gw' → gw' ≠ gw →
      aheadAfter bound s.gatewayIdsIt j < ahead bound s.gatewayIdsIt j := by
    intro gw' hgw' hother
    refine aheadAfter_lt (hit.trans_le hle) fun heq => hother ?_
    rw [heq, hj] at hgw'
    exact (Option.some.inj hgw').symm
  cases h with
  | connected id hroom => exact Or.inr ⟨rfl, le_refl _⟩
  | arrived gw' c => exact Or.inr ⟨rfl, le_refl _⟩
  | idle ids gw' hwait hgw' hin =>
    refine Or.inr ⟨rfl, ?_⟩
    rw [pollsTo_of_waiting hwait]
    calc s.advance.pollsTo bound j + 1
        = ahead bound (next s.gatewayConnectionIds.length s.gatewayIdsIt) j + 1 :=
          congrArg (· + 1) (pollsTo_of_waiting (s := s.advance) hwait)
      _ ≤ aheadAfter bound s.gatewayIdsIt j + 1 := Nat.succ_le_succ (ahead_next_le hit hjlt hle)
      _ ≤ ahead bound s.gatewayIdsIt j := hless gw' hgw' fun heq => hne (heq ▸ hin)
  | took ids gw' c rest x hwait hgw' hin hx =>
    by_cases hgw : gw' = gw
    · exact Or.inl (by simp [takenFrom, hgw])
    · refine Or.inr ⟨by simp [takenFrom, hgw], ?_⟩
      have hnext :=
        pollsTo_handled (s := { s with exchange := x, inbox := Function.update s.inbox gw' rest }) hit hjlt hle
      rw [pollsTo_of_waiting hwait]
      exact (Nat.succ_le_succ hnext).trans (hless gw' hgw' hgw)
  | answered ids x hwait hdone hx =>
    refine Or.inr ⟨rfl, ?_⟩
    rw [pollsTo_of_waiting hdone, pollsTo, Option.isNone_eq_false_iff.2 (Option.isSome_iff_ne_none.2 hwait)]
    exact ahead_next_le hit hjlt hle
  | inside e x part hpoll harrivals hwait hx =>
    refine Or.inr ⟨rfl, ?_⟩
    rw [pollsTo, pollsTo, hwait, hpoll]
    exact le_refl _

/-- A request with `m` others before it is taken once the loop has come to its gateway and gone `m` more rounds. -/
private theorem taken_of_polls {bound j m : Nat} {gw : Int} (h : answers (step cfg A) s es = some (rs, t))
    (hit : s.gatewayIdsIt < s.gatewayConnectionIds.length) (hj : s.gatewayConnectionIds[j]? = some gw)
    (hbound : t.gatewayConnectionIds.length ≤ bound) (hm : m < (s.inbox gw).length)
    (hpolls : s.pollsTo bound j + bound * m < es.countP PollingEvent.isPoll) :
    m < (takenFrom gw rs.flatten).length := by
  induction es generalizing s rs m with
  | nil => exact absurd hpolls (Nat.not_lt_zero _)
  | cons e es ih =>
    have hle := (prefix_of_answers h hit).length_le.trans hbound
    obtain ⟨r, s', rs', hstep, hrest, rfl⟩ := answers_cons_eq_some.1 h
    have hturn := turn_of_step hstep
    obtain ⟨hpre, hit'⟩ := hturn.places hit
    have hj' : s'.gatewayConnectionIds[j]? = some gw := by
      obtain ⟨more, hmore⟩ := hpre
      rw [← hmore, List.getElem?_append_left (List.getElem?_eq_some_iff.1 hj).1, hj]
    have hlength := congrArg List.length (hturn.conserves gw)
    rw [List.length_append, List.length_append] at hlength
    rw [List.flatten_cons, takenFrom_append, List.length_append]
    rw [List.countP_cons] at hpolls
    have hne : s.inbox gw ≠ [] := List.ne_nil_of_length_pos (Nat.zero_lt_of_lt hm)
    rcases hturn.approaches hit hj hle hne with htaken | ⟨hnone, hcloser⟩
    · -- one message less is ahead, and the iterator is at most one round away
      cases m with
      | zero => omega
      | succ m =>
        have hle' := (prefix_of_answers hrest hit').length_le.trans hbound
        have hround := pollsTo_lt (hit'.trans_le hle') ((List.getElem?_eq_some_iff.1 hj').1.trans_le hle')
        rw [Nat.mul_succ] at hpolls
        have hpolls' : s'.pollsTo bound j + bound * m < es.countP PollingEvent.isPoll := by
          split at hpolls <;> omega
        have hm' : m < (s'.inbox gw).length := by omega
        have hlater := ih hrest hit' hj' hm' hpolls'
        omega
    · rw [hnone, List.length_nil] at hlength
      have hm' : m < (s'.inbox gw).length := by omega
      have hlater := ih hrest hit' hj' hm' (by omega)
      omega

/-- The first of two gateways has more to send than the second one. -/
def sampleInbox (gw : Int) : List Container :=
  if gw = 1 then [.newOrderSingle Exchange.sampleAsk]
  else [.newOrderSingle Exchange.sampleBid, .newOrderSingle Exchange.sampleBid]

/-- What the loop does to the exchange is a run of the exchange. -/
theorem reach_of_answers {x₀ : Exchange} {first : Int} {others : List Int} {capacity : Nat}
    {inbox : Int → List Container} (hin : ∀ gw, ∀ c ∈ inbox gw, GatewayShaped c) (hes : ∀ e ∈ es, e.Shaped)
    (h : answers (step cfg A) (start x₀ first others capacity inbox) es = some (rs, t)) :
    Reach (Exchange.step cfg A) (fun _ e => Exchange.Fed e) x₀ t.exchange := by
  refine (answers_invariant (I := fun s : Polling => (∀ gw, ∀ c ∈ s.inbox gw, GatewayShaped c) ∧
    Reach (Exchange.step cfg A) (fun _ e => Exchange.Fed e) x₀ s.exchange) ?_ ⟨hin, .start⟩ hes h).2
  rintro s e r s' ⟨hshaped, hreach⟩ he hstep
  cases turn_of_step hstep with
  | connected id hroom => exact ⟨hshaped, hreach⟩
  | arrived gw c =>
    refine ⟨fun gw' d hd => ?_, hreach⟩
    by_cases hgw : gw' = gw
    · subst hgw
      simp only [Function.update_self] at hd
      rcases List.mem_append.1 hd with hd | hd
      · exact hshaped gw' d hd
      · rw [List.mem_singleton.1 hd]
        exact he
    · simp only [Function.update_of_ne hgw] at hd
      exact hshaped gw' d hd
  | idle ids gw hwait hgw hin => exact ⟨hshaped, hreach⟩
  | took ids gw c rest x hwait hgw hin hx =>
    have hcons : ∀ d ∈ c :: rest, GatewayShaped d := hin ▸ hshaped gw
    have hfed : Exchange.Fed (.request c gw ids) := hcons c List.mem_cons_self
    rw [handled_inbox, handled_exchange]
    refine ⟨fun gw' d hd => ?_, .next hreach hfed hx⟩
    by_cases hgw' : gw' = gw
    · subst hgw'
      simp only [Function.update_self] at hd
      exact hcons d (List.mem_cons_of_mem c hd)
    · simp only [Function.update_of_ne hgw'] at hd
      exact hshaped gw' d hd
  | answered ids x hwait hdone hx =>
    have hfed : Exchange.Fed (.answer ids) := trivial
    exact ⟨hshaped, .next hreach hfed hx⟩
  | inside e x part hpoll harrivals hwait hx =>
    refine ⟨hshaped, ?_⟩
    rcases hx with rfl | ⟨ev, hfed, hx⟩
    · exact hreach
    · exact .next hreach hfed hx

end steps

end Polling

end Elsa
