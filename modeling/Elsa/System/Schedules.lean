import Elsa.Base.Interleaving
import Elsa.System.Agreement

/-!
# Schedules of the exchange

The order manager and the engine are two processes, and nothing in the code says which of them goes on when.  A
message that one of them can take stays in its channel while the other one works, and what a process does with a
message depends on its own state only.  So steps of the two processes commute (`commutes_step`), and where a run
ends is determined by what each of them did in its own order (`outcome_of_schedules`).  For the order manager this
order is part of the outcome: it takes requests of clients and responses of the engine in turns.
-/

namespace Elsa.Exchange

open Base

variable {cfg : Config} {A : Arith} {s t t' : Exchange}

/-- The steps of the order manager; the others are steps of the engine. -/
def managed : Event → Bool
  | .matching _ => false
  | _ => true

/-- What the engine does in between is not seen by a step of the order manager: the messages it can take are still
the first ones. -/
private theorem step_managed_of_appended {e : Event} (he : managed e = true) (h : s.step cfg A e = some t)
    (me : MatchingEngine) (requests : List Container) (taken : Container) (hr : s.requests = taken :: requests)
    (sent answered : List Container) :
    ∃ requests', t.requests = taken :: requests' ∧ t.me = s.me ∧
      step cfg A { s with me, requests, responses := s.responses ++ sent, answers := s.answers ++ answered } e =
        some { t with
          me, requests := requests', responses := t.responses ++ sent, answers := t.answers ++ answered } := by
  cases step_iff.1 h with
  | request c gw ids om out hw hh =>
    refine ⟨requests ++ out.forwarded, ?_, rfl, step_iff.2 (.request c gw ids om out hw hh)⟩
    exact congrArg (· ++ out.forwarded) hr
  | query c gw ids om o q hw hh =>
    refine ⟨requests ++ [Container.fillCostQuery q], ?_, rfl, step_iff.2 (.query c gw ids om o q hw hh)⟩
    exact congrArg (· ++ [Container.fillCostQuery q]) hr
  | answer o gw a answers ids om out hw ha hh =>
    refine ⟨requests ++ out.forwarded, congrArg (· ++ out.forwarded) hr, rfl,
      step_iff.2 (.answer o gw a (answers ++ answered) ids om out hw ?_ hh)⟩
    exact congrArg (· ++ answered) ha
  | matching => cases he
  | response c responses ids om out hw hc hh =>
    refine ⟨requests, hr, rfl, step_iff.2 (.response c (responses ++ sent) ids om out hw ?_ hh)⟩
    exact congrArg (· ++ sent) hc

theorem commutes_step : Commutes (step cfg A) managed := by
  intro s e f s₁ s₂ he hf h₁ h₂
  obtain ⟨draw, rfl⟩ : ∃ draw, f = .matching draw := by
    cases f with
    | matching draw => exact ⟨draw, rfl⟩
    | request => cases hf
    | answer => cases hf
    | response => cases hf
  cases step_iff.1 h₂ with
  | matching c requests draw me sent hr hp =>
    obtain ⟨requests', hr', hme, hstep⟩ := step_managed_of_appended he h₁ me requests c hr sent.responses sent.answers
    exact ⟨_, step_iff.2 (.matching c requests' draw me sent hr' (hme ▸ hp)), hstep⟩

/-- Two runs in which the order manager does the same in the same order, and the engine too, end in the same state,
whatever their interleaving. -/
theorem outcome_of_schedules {es es' : List Event} (h : exec (step cfg A) s es = some t)
    (h' : exec (step cfg A) s es' = some t') (hom : es.filter managed = es'.filter managed)
    (hme : es.filter (fun e => !managed e) = es'.filter fun e => !managed e) : t = t' :=
  commutes_step.exec_eq_of_filter_eq h h' hom hme

/-- The engine matches the ask before or after the bid reaches the order manager. -/
theorem outcome_of_schedules_sampleTrading : ∃ t t' : Exchange,
    exec (step twoUsers .machine) (start twoUsers twoBalances)
      [.request (.newOrderSingle sampleAsk) 0 noIds, .matching zeroStamps,
        .request (.newOrderSingle sampleBid) 0 noIds, .matching zeroStamps, .response noIds] = some t ∧
    exec (step twoUsers .machine) (start twoUsers twoBalances)
      [.request (.newOrderSingle sampleAsk) 0 noIds, .request (.newOrderSingle sampleBid) 0 noIds,
        .matching zeroStamps, .matching zeroStamps, .response noIds] = some t' ∧ t = t' := by
  obtain ⟨t, ht⟩ := Option.isSome_iff_exists.1 (show (exec (step twoUsers .machine) (start twoUsers twoBalances)
    [.request (.newOrderSingle sampleAsk) 0 noIds, .matching zeroStamps, .request (.newOrderSingle sampleBid) 0 noIds,
      .matching zeroStamps, .response noIds]).isSome = true by decide +kernel)
  obtain ⟨t', ht'⟩ := Option.isSome_iff_exists.1 (show (exec (step twoUsers .machine) (start twoUsers twoBalances)
    [.request (.newOrderSingle sampleAsk) 0 noIds, .request (.newOrderSingle sampleBid) 0 noIds, .matching zeroStamps,
      .matching zeroStamps, .response noIds]).isSome = true by decide +kernel)
  exact ⟨t, t', ht, ht', outcome_of_schedules ht ht' rfl rfl⟩

end Elsa.Exchange
