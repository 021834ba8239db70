import Mathlib.Data.List.Basic
import Elsa.Engine.LimitOrderBook

/-!
# The trades of a call

`match_order` creates one trade for each maker it fills (`tradesFor`).  With a contract that holds, `create_trade` can
fail only in the constructor of `Trade`, which asserts that the texts fit their arrays (`TextsFit`); so the trades of
a call are made exactly when all texts fit, and then they are the expected ones (`tradesFor_eq_ok_iff`).
-/

namespace Elsa

open Base CString

/-- The trade of a taker with one maker.  Its texts end at the first zero byte. -/
def tradeOf (stamp : Stamp) (ticker : String) (t : Taker) (maker : Order) (quantity : Int) : Trade :=
  { ticker := upToNul ticker, price := maker.price, quantity, tradeId := stamp.tradeId,
    takerId := upToNul t.brokerId, makerId := upToNul maker.traderId, takerOrderId := t.orderId,
    makerOrderId := maker.orderId, isTakerBuyer := t.side = .bid, createTimestamp := stamp.createTimestamp }

/-- The texts of a trade fit the arrays of `Trade`. -/
def TextsFit (ticker takerId makerId : String) : Prop :=
  FitsField ticker maxTickerLength ∧ FitsField takerId maxUsernameLength ∧ FitsField makerId maxUsernameLength

instance (ticker takerId makerId : String) : Decidable (TextsFit ticker takerId makerId) :=
  inferInstanceAs (Decidable (_ ∧ _ ∧ _))

/-- A canonical UUID text fits its array. -/
private theorem Stamp.tradeId_fits (stamp : Stamp) : FitsField stamp.tradeId uuidLength := by
  have hlength : strlen 0 (textBytes stamp.tradeId) = 36 :=
    (strlen_of_notMem (zero_notMem_bytes stamp.tradeId_nulFree)).trans stamp.tradeId_length
  unfold FitsField uuidLength
  omega

/-- The contract of `create_trade` between a taker and a maker, apart from the ticker. -/
structure Tradable (t : Taker) (maker : Order) (quantity : Int) : Prop where
  taker_id : 0 ≤ t.orderId
  maker_id : 0 ≤ maker.orderId
  id_ne : t.orderId ≠ maker.orderId
  taker_ne : t.brokerId ≠ ""
  maker_ne : maker.traderId ≠ ""
  price_pos : 0 < maker.price
  quantity_pos : 0 < quantity

private theorem tradeWith_eq {t : Taker} {maker : Order} {q : Int} (h : Tradable t maker q) (draw : Nat → Stamp)
    (ticker : String) (k : Nat) :
    tradeWith draw ticker t k maker q =
      if TextsFit ticker t.brokerId maker.traderId then .ok (tradeOf (draw k) ticker t maker q)
      else .error (if ticker = "" then .contract .createTrade else .assertion) := by
  unfold tradeWith createTrade
  by_cases ht : ticker = ""
  · subst ht
    rw [require_of_not (fun hc => hc.2.2.2.2.2.1 rfl), if_neg (fun hf => absurd hf.1.1 (by decide))]
    rfl
  · rw [require_of ⟨h.taker_id, h.maker_id, h.id_ne, h.taker_ne, h.maker_ne, ht, h.price_pos, h.quantity_pos⟩,
      ok_bind]
    by_cases hfit : TextsFit ticker t.brokerId maker.traderId
    · rw [if_pos hfit]
      refine (Trade.make_of_fits _ ⟨hfit.1, (draw k).tradeId_fits, hfit.2.1, hfit.2.2⟩).trans ?_
      simp only [Trade.held, tradeOf, upToNul_of_nulFree (draw k).tradeId_nulFree]
    · rw [if_neg hfit, if_neg ht]
      exact Trade.make_of_not_fits _ fun hall => hfit ⟨hall.ticker, hall.takerId, hall.makerId⟩

/-- The trades for an allotment, numbered from `k`. -/
def tradesFor (draw : Nat → Stamp) (ticker : String) (t : Taker) (k : Nat) (fills : List (Node × Int)) :
    Except Fault (List Trade) :=
  (fills.zipIdx k).mapM fun f => tradeWith draw ticker t f.2 f.1.1.order f.1.2

@[simp] theorem tradesFor_nil (draw : Nat → Stamp) (ticker : String) (t : Taker) (k : Nat) :
    tradesFor draw ticker t k [] = .ok [] := rfl

theorem tradesFor_cons (draw : Nat → Stamp) (ticker : String) (t : Taker) (k : Nat) (f : Node × Int)
    (fs : List (Node × Int)) :
    tradesFor draw ticker t k (f :: fs) = (do
      let trade ← tradeWith draw ticker t k f.1.order f.2
      let rest ← tradesFor draw ticker t (k + 1) fs
      return trade :: rest) := by
  simp [tradesFor, List.zipIdx_cons, List.mapM_cons]

theorem tradesFor_append (draw : Nat → Stamp) (ticker : String) (t : Taker) (k : Nat) (fs gs : List (Node × Int)) :
    tradesFor draw ticker t k (fs ++ gs) = (do
      let ts ← tradesFor draw ticker t k fs
      let us ← tradesFor draw ticker t (k + fs.length) gs
      return ts ++ us) := by
  simp [tradesFor, List.zipIdx_append, List.mapM_append]

theorem tradesFor_length {draw : Nat → Stamp} {ticker : String} {t : Taker} {k : Nat} {fs : List (Node × Int)}
    {ts : List Trade} (h : tradesFor draw ticker t k fs = .ok ts) : ts.length = fs.length := by
  induction fs generalizing k ts with
  | nil => cases h; rfl
  | cons f fs ih =>
    rw [tradesFor_cons, bind_eq_ok] at h
    obtain ⟨a, -, h⟩ := h
    rw [bind_eq_ok] at h
    obtain ⟨us, hus, h⟩ := h
    cases h
    simp [ih hus]

/-- The trades of an allotment are made exactly when all texts fit. -/
theorem tradesFor_eq_ok_iff {draw : Nat → Stamp} {ticker : String} {t : Taker} {k : Nat} {fs : List (Node × Int)}
    {ts : List Trade} (h : ∀ f ∈ fs, Tradable t f.1.order f.2) :
    tradesFor draw ticker t k fs = .ok ts ↔ (∀ f ∈ fs, TextsFit ticker t.brokerId f.1.order.traderId) ∧
      ts = (fs.zipIdx k).map (fun f => tradeOf (draw f.2) ticker t f.1.1.order f.1.2) := by
  induction fs generalizing k ts with
  | nil => simp [eq_comm]
  | cons f fs ih =>
    rw [tradesFor_cons, tradeWith_eq (h f (by simp))]
    have hfs : ∀ g ∈ fs, Tradable t g.1.order g.2 := fun g hg => h g (List.mem_cons_of_mem _ hg)
    by_cases hf : TextsFit ticker t.brokerId f.1.order.traderId
    · rw [if_pos hf]
      simp only [bind_eq_ok, ih hfs, List.forall_mem_cons, hf, true_and, List.zipIdx_cons, List.map_cons]
      constructor
      · rintro ⟨a, ha, us, ⟨hfit, rfl⟩, hts⟩
        cases ha; cases hts
        exact ⟨hfit, rfl⟩
      · rintro ⟨hfit, rfl⟩
        exact ⟨_, rfl, _, ⟨hfit, rfl⟩, rfl⟩
    · rw [if_neg hf]
      constructor
      · intro hc; cases hc
      · rintro ⟨hfit, -⟩; exact absurd (hfit f (by simp)) hf

/-- Making the trades of an allotment can only fail in the constructor of `Trade`, or because the book has no
ticker. -/
theorem tradesFor_error {draw : Nat → Stamp} {ticker : String} {t : Taker} {k : Nat} {fs : List (Node × Int)}
    {e : Fault} (h : ∀ f ∈ fs, Tradable t f.1.order f.2) (he : tradesFor draw ticker t k fs = .error e) :
    e = (if ticker = "" then .contract .createTrade else .assertion) ∧ fs ≠ [] := by
  refine ⟨?_, by rintro rfl; cases he⟩
  induction fs generalizing k with
  | nil => cases he
  | cons f fs ih =>
    rw [tradesFor_cons, tradeWith_eq (h f (by simp))] at he
    by_cases hf : TextsFit ticker t.brokerId f.1.order.traderId
    · rw [if_pos hf] at he
      cases hr : tradesFor draw ticker t (k + 1) fs with
      | error e' =>
        simp only [hr] at he
        cases he
        exact ih (fun g hg => h g (List.mem_cons_of_mem _ hg)) hr
      | ok us => simp only [hr] at he; cases he
    · rw [if_neg hf] at he; cases he; rfl

end Elsa
