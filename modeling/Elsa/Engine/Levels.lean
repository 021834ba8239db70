import Mathlib.Data.List.Basic
import Elsa.Engine.LimitOrderBook

/-!
# Levels and priority queues

The nodes of a side, listed from the best price to the worst and by position within a price, are its queue
(`LimitOrderBook.queueOf`).  On a well-formed side (`SideOk`: no empty level, every node under its own price, on its
own side, with something left to trade) the queue determines the map (`find?_eq_filter`), it is sorted by price
(`queueOf_sorted`), and the three ways in which the book touches a side act on it in the expected way: the best
level goes (`levelsOf_erase`) or is replaced (`levelsOf_insert`), and a new order is stored behind everything that
is at least as well priced (`queueOf_rest`).
-/

namespace Elsa

open Base

/-- `p` is a strictly better price than `p'` for orders resting on side `s`. -/
def Side.Better : Side → Int → Int → Prop
  | .bid, p, p' => p' < p
  | .ask, p, p' => p < p'

instance (s : Side) (p p' : Int) : Decidable (s.Better p p') := by
  cases s
  · exact inferInstanceAs (Decidable (p' < p))
  · exact inferInstanceAs (Decidable (p < p'))

theorem Side.Better.ne {s : Side} {p p' : Int} (h : s.Better p p') : p ≠ p' := by
  cases s <;> simp only [Side.Better] at h <;> omega

theorem Side.Better.asymm {s : Side} {p p' : Int} (h : s.Better p p') : ¬ s.Better p' p := by
  cases s <;> simp only [Side.Better] at h ⊢ <;> omega

theorem Side.not_better {s : Side} {p p' : Int} : ¬ s.Better p p' ↔ p = p' ∨ s.Better p' p := by
  cases s <;> simp only [Side.Better] <;> omega

theorem Side.not_better_trans {s : Side} {p q r : Int} (h : ¬ s.Better q p) (h' : ¬ s.Better r q) :
    ¬ s.Better r p := by
  cases s <;> simp only [Side.Better] at h h' ⊢ <;> omega

/-- What a level of side `s` may hold. -/
structure NodeOk (s : Side) (price : Int) (n : Node) : Prop where
  price_eq : n.order.price = price
  side_eq : n.order.side = s
  quantity_pos : 0 < n.order.quantity
  id_nonneg : 0 ≤ n.order.orderId
  trader_ne : n.order.traderId ≠ ""

/-- A well-formed side: no empty level, prices between the two reserved values, every node under its price. -/
structure SideOk (s : Side) (m : SideContainer) : Prop where
  level_ne : ∀ e ∈ m.entries, e.2 ≠ []
  price_pos : ∀ e ∈ m.entries, 0 < e.1
  price_lt : ∀ e ∈ m.entries, e.1 < marketBidOrderPrice
  node_ok : ∀ e ∈ m.entries, ∀ n ∈ e.2, NodeOk s e.1 n

theorem SideOk.empty (s : Side) : SideOk s SortedMap.empty :=
  ⟨by simp [SortedMap.empty], by simp [SortedMap.empty], by simp [SortedMap.empty], by simp [SortedMap.empty]⟩

theorem SideOk.erase {s : Side} {m : SideContainer} (h : SideOk s m) (p : Int) : SideOk s (m.erase p) := by
  have hsub : ∀ e ∈ (m.erase p).entries, e ∈ m.entries := fun e he => List.mem_of_mem_filter he
  exact ⟨fun e he => h.level_ne e (hsub e he), fun e he => h.price_pos e (hsub e he),
    fun e he => h.price_lt e (hsub e he), fun e he => h.node_ok e (hsub e he)⟩

theorem SideOk.insert {s : Side} {m : SideContainer} (h : SideOk s m) {p : Int} {l : List Node} (hne : l ≠ [])
    (hp : 0 < p) (hp' : p < marketBidOrderPrice) (hl : ∀ n ∈ l, NodeOk s p n) : SideOk s (m.insert p l) := by
  have hmem : ∀ e ∈ (m.insert p l).entries, e = (p, l) ∨ e ∈ m.entries := fun e he => SortedMap.mem_putEntry he
  constructor
  · intro e he
    rcases hmem e he with rfl | he
    · exact hne
    · exact h.level_ne e he
  · intro e he
    rcases hmem e he with rfl | he
    · exact hp
    · exact h.price_pos e he
  · intro e he
    rcases hmem e he with rfl | he
    · exact hp'
    · exact h.price_lt e he
  · intro e he
    rcases hmem e he with rfl | he
    · exact hl
    · exact h.node_ok e he

theorem SideOk.level_ok {s : Side} {m : SideContainer} (h : SideOk s m) (p : Int) :
    ∀ n ∈ (m.find? p).getD [], NodeOk s p n := by
  intro n hn
  cases hf : m.find? p with
  | none => rw [hf] at hn; cases hn
  | some l => rw [hf] at hn; exact h.node_ok _ (SortedMap.find?_eq_some_iff.1 hf) n hn

namespace LimitOrderBook

/-- The nodes of a side from best to worst. -/
def queueOf (s : Side) (m : SideContainer) : List Node := (levelsOf s m).flatMap Prod.snd

theorem mem_levelsOf {s : Side} {m : SideContainer} {e : Int × List Node} : e ∈ levelsOf s m ↔ e ∈ m.entries := by
  cases s <;> simp [levelsOf]

theorem mem_queueOf {s : Side} {m : SideContainer} {n : Node} : n ∈ queueOf s m ↔ ∃ e ∈ m.entries, n ∈ e.2 := by
  simp only [queueOf, List.mem_flatMap, mem_levelsOf]

theorem nodesOf_perm (s : Side) (m : SideContainer) : (nodesOf m).Perm (queueOf s m) := by
  cases s with
  | ask => exact List.Perm.refl _
  | bid => exact (List.reverse_perm m.entries).symm.flatMap_right _

theorem levelsOf_sorted (s : Side) (m : SideContainer) :
    (levelsOf s m).Pairwise (fun a b => s.Better a.1 b.1) := by
  cases s with
  | ask => exact m.sorted
  | bid => exact List.pairwise_reverse.2 m.sorted

theorem levelsOf_length (s : Side) (m : SideContainer) : (levelsOf s m).length = m.size := by
  cases s <;> simp [levelsOf, SortedMap.size]

theorem bestLevel_eq (s : Side) (m : SideContainer) : bestLevel s m = (levelsOf s.opposite m).head? := by
  cases s <;> simp [bestLevel, levelsOf, Side.opposite]

/-- The entries around the first level, for either direction of the listing. -/
private theorem entries_of_levels {s : Side} {m : SideContainer} {p : Int} {l : List Node}
    {L : List (Int × List Node)} (h : levelsOf s m = (p, l) :: L) :
    ∃ X Y : List (Int × List Node), m.entries = X ++ (p, l) :: Y ∧
      ((s = .bid ∧ X = L.reverse ∧ Y = []) ∨ (s = .ask ∧ X = [] ∧ Y = L)) := by
  cases s with
  | ask => exact ⟨[], L, h, Or.inr ⟨rfl, rfl, rfl⟩⟩
  | bid =>
    refine ⟨L.reverse, [], ?_, Or.inl ⟨rfl, rfl, rfl⟩⟩
    have := congrArg List.reverse h
    simpa [levelsOf] using this

theorem levelsOf_erase {s : Side} {m : SideContainer} {p : Int} {l : List Node} {L : List (Int × List Node)}
    (h : levelsOf s m = (p, l) :: L) : levelsOf s (m.erase p) = L := by
  obtain ⟨X, Y, he, hXY⟩ := entries_of_levels h
  obtain ⟨hX, hY⟩ := SortedMap.split_of_mem he
  have hi := SortedMap.erase_entries (o := some l) hX hY (by simpa using he)
  rcases hXY with ⟨rfl, rfl, rfl⟩ | ⟨rfl, rfl, rfl⟩ <;> simp [levelsOf, hi]

theorem levelsOf_insert {s : Side} {m : SideContainer} {p : Int} {l : List Node} {L : List (Int × List Node)}
    (h : levelsOf s m = (p, l) :: L) (l' : List Node) : levelsOf s (m.insert p l') = (p, l') :: L := by
  obtain ⟨X, Y, he, hXY⟩ := entries_of_levels h
  obtain ⟨hX, hY⟩ := SortedMap.split_of_mem he
  have hi := SortedMap.insert_entries (o := some l) l' hX hY (by simpa using he)
  rcases hXY with ⟨rfl, rfl, rfl⟩ | ⟨rfl, rfl, rfl⟩ <;> simp [levelsOf, hi]

/-! ### Well-formed sides -/

theorem node_ok_of_mem {s : Side} {m : SideContainer} (h : SideOk s m) {n : Node} (hn : n ∈ queueOf s m) :
    NodeOk s n.order.price n ∧ 0 < n.order.price ∧ n.order.price < marketBidOrderPrice := by
  obtain ⟨e, he, hne⟩ := mem_queueOf.1 hn
  have hok := h.node_ok e he n hne
  rw [hok.price_eq]
  exact ⟨hok, h.price_pos e he, h.price_lt e he⟩

/-- The queue is sorted: no node is better priced than an earlier one. -/
theorem queueOf_sorted {s : Side} {m : SideContainer} (h : SideOk s m) :
    (queueOf s m).Pairwise (fun a b => ¬ s.Better b.order.price a.order.price) := by
  unfold queueOf
  rw [List.pairwise_flatMap]
  constructor
  · intro e he
    rw [mem_levelsOf] at he
    rw [List.pairwise_iff_forall_sublist]
    intro a b hab
    have ha := h.node_ok e he a (hab.subset (by simp))
    have hb := h.node_ok e he b (hab.subset (by simp))
    rw [ha.price_eq, hb.price_eq]
    exact fun hbb => hbb.ne rfl
  · refine (levelsOf_sorted s m).imp_of_mem ?_
    intro e e' he he' hlt a ha b hb
    rw [mem_levelsOf] at he he'
    rw [(h.node_ok e he a ha).price_eq, (h.node_ok e' he' b hb).price_eq]
    exact hlt.asymm

/-- The level stored under a price is the part of the queue at that price. -/
theorem find?_eq_filter {s : Side} {m : SideContainer} (h : SideOk s m) (p : Int) :
    m.find? p = (let l := (queueOf s m).filter (fun n => n.order.price = p); if l = [] then none else some l) := by
  have hout : ∀ L : List (Int × List Node), (∀ e ∈ L, e ∈ m.entries ∧ e.1 ≠ p) →
      (L.flatMap Prod.snd).filter (fun n => decide (n.order.price = p)) = [] := by
    intro L hL
    rw [List.filter_eq_nil_iff]
    intro n hn
    obtain ⟨e, he, hne⟩ := List.mem_flatMap.1 hn
    have := (h.node_ok e (hL e he).1 n hne).price_eq
    simpa [this] using (hL e he).2
  cases hf : m.find? p with
  | none =>
    have hne : ∀ e ∈ m.entries, e.1 ≠ p := by
      intro e he hep
      have := SortedMap.find?_eq_some_iff.2 (show (p, e.2) ∈ m.entries from hep ▸ he)
      rw [hf] at this
      cases this
    have := hout (levelsOf s m) (fun e he => ⟨mem_levelsOf.1 he, hne e (mem_levelsOf.1 he)⟩)
    simp only [queueOf, this, if_true]
  | some l =>
    have hmem := SortedMap.find?_eq_some_iff.1 hf
    obtain ⟨X, Y, he⟩ := List.append_of_mem (mem_levelsOf (s := s).2 hmem)
    have hs := levelsOf_sorted s m
    rw [he, List.pairwise_append, List.pairwise_cons] at hs
    -- prices are strictly sorted, so only the level of `p` holds orders at `p`
    have hX : ∀ e ∈ X, e ∈ m.entries ∧ e.1 ≠ p := fun e hx =>
      ⟨mem_levelsOf.1 (he ▸ List.mem_append_left _ hx), (hs.2.2 e hx (p, l) (by simp)).ne⟩
    have hY : ∀ e ∈ Y, e ∈ m.entries ∧ e.1 ≠ p := fun e hy =>
      ⟨mem_levelsOf.1 (he ▸ List.mem_append_right _ (List.mem_cons_of_mem _ hy)), (hs.2.1.1 e hy).ne.symm⟩
    have hl : l.filter (fun n => decide (n.order.price = p)) = l := by
      rw [List.filter_eq_self]
      intro n hn
      simpa using (h.node_ok _ hmem n hn).price_eq
    have hq : (queueOf s m).filter (fun n => decide (n.order.price = p)) = l := by
      unfold queueOf
      rw [he, List.flatMap_append, List.flatMap_cons, List.filter_append, List.filter_append, hout X hX, hout Y hY,
        hl]
      simp
    simp only [hq, if_neg (h.level_ne _ hmem)]

/-- A node stored at the tail of its level stands behind every node that is at least as well priced. -/
theorem queueOf_rest {s : Side} {m : SideContainer} (h : SideOk s m) {p : Int} (n : Node) :
    ∃ X Y, queueOf s m = X ++ Y ∧ queueOf s (m.insert p ((m.find? p).getD [] ++ [n])) = X ++ n :: Y ∧
      (∀ x ∈ X, ¬ s.Better p x.order.price) ∧ (∀ y ∈ Y, s.Better p y.order.price) := by
  obtain ⟨L, R, hL, hR, he⟩ := m.exists_split p
  have hi := SortedMap.insert_entries ((m.find? p).getD [] ++ [n]) hL hR he
  have hlev : ∀ k, ((m.find? p).toList.map (fun v => (p, v))).flatMap Prod.snd ++ k = (m.find? p).getD [] ++ k := by
    intro k; cases m.find? p <;> simp
  have hlev' : (((m.find? p).toList.map (fun v => (p, v))).reverse).flatMap Prod.snd = (m.find? p).getD [] := by
    cases m.find? p <;> simp
  have hpr : ∀ e ∈ m.entries, ∀ x ∈ e.2, x.order.price = e.1 := fun e he x hx => (h.node_ok e he x hx).price_eq
  have hat : ∀ x ∈ (m.find? p).getD [], x.order.price = p := fun x hx => (h.level_ok p x hx).price_eq
  have hLm : ∀ e ∈ L, e ∈ m.entries := fun e hx => by rw [he]; simp [hx]
  have hRm : ∀ e ∈ R, e ∈ m.entries := fun e hx => by rw [he]; simp [hx]
  have hlow : ∀ x ∈ L.flatMap Prod.snd, x.order.price < p := by
    intro x hx
    obtain ⟨e, hel, hxe⟩ := List.mem_flatMap.1 hx
    rw [hpr e (hLm e hel) x hxe]; exact hL e hel
  have hhigh : ∀ x ∈ R.flatMap Prod.snd, p < x.order.price := by
    intro x hx
    obtain ⟨e, hel, hxe⟩ := List.mem_flatMap.1 hx
    rw [hpr e (hRm e hel) x hxe]; exact hR e hel
  -- asks are listed by increasing price, bids by decreasing price: the new node ends up between the same two parts
  cases s with
  | ask =>
    refine ⟨L.flatMap Prod.snd ++ (m.find? p).getD [], R.flatMap Prod.snd, ?_, ?_, ?_, ?_⟩
    · simp only [queueOf, levelsOf, he, List.flatMap_append, List.append_assoc, hlev]
    · simp only [queueOf, levelsOf, hi, List.flatMap_append, List.flatMap_cons, List.append_assoc]
      rfl
    · intro x hx
      rcases List.mem_append.1 hx with hx | hx
      · have := hlow x hx; simp only [Side.Better]; omega
      · have := hat x hx; simp only [Side.Better]; omega
    · intro y hy; exact hhigh y hy
  | bid =>
    have hrev : ∀ x, x ∈ R.reverse.flatMap Prod.snd ↔ x ∈ R.flatMap Prod.snd := fun x => by
      simp only [List.mem_flatMap, List.mem_reverse]
    have hrev' : ∀ x, x ∈ L.reverse.flatMap Prod.snd ↔ x ∈ L.flatMap Prod.snd := fun x => by
      simp only [List.mem_flatMap, List.mem_reverse]
    refine ⟨R.reverse.flatMap Prod.snd ++ (m.find? p).getD [], L.reverse.flatMap Prod.snd, ?_, ?_, ?_, ?_⟩
    · simp only [queueOf, levelsOf, he, List.reverse_append, List.flatMap_append, hlev', List.append_assoc]
    · simp only [queueOf, levelsOf, hi, List.reverse_append, List.reverse_cons, List.flatMap_append,
        List.flatMap_cons, List.flatMap_nil, List.append_assoc, List.append_nil]
      rfl
    · intro x hx
      rcases List.mem_append.1 hx with hx | hx
      · have := hhigh x ((hrev x).1 hx); simp only [Side.Better]; omega
      · have := hat x hx; simp only [Side.Better]; omega
    · intro y hy; exact hlow y ((hrev' y).1 hy)

/-- Dropping nodes from one level drops them from the queue. -/
theorem queueOf_filter {s : Side} {m : SideContainer} {p : Int} {l : List Node} {P : Node → Bool}
    (hf : m.find? p = some l) (hP : ∀ e ∈ m.entries, e.1 ≠ p → ∀ n ∈ e.2, P n = true) :
    queueOf s (if l.filter P = [] then m.erase p else m.insert p (l.filter P)) = (queueOf s m).filter P := by
  obtain ⟨L, R, hL, hR, he⟩ := m.exists_split p
  have hkeep : ∀ M : List (Int × List Node), (∀ e ∈ M, e ∈ m.entries ∧ e.1 ≠ p) →
      (M.flatMap Prod.snd).filter P = M.flatMap Prod.snd := by
    intro M hM
    rw [List.filter_eq_self]
    intro n hn
    obtain ⟨e, hem, hne⟩ := List.mem_flatMap.1 hn
    exact hP e (hM e hem).1 (hM e hem).2 n hne
  have hL' : ∀ e ∈ L, e ∈ m.entries ∧ e.1 ≠ p := fun e hx => ⟨by rw [he]; simp [hx], (hL e hx).ne⟩
  have hR' : ∀ e ∈ R, e ∈ m.entries ∧ e.1 ≠ p := fun e hx => ⟨by rw [he]; simp [hx], (hR e hx).ne'⟩
  have hLr : ∀ e ∈ L.reverse, e ∈ m.entries ∧ e.1 ≠ p := fun e hx => hL' e (List.mem_reverse.1 hx)
  have hRr : ∀ e ∈ R.reverse, e ∈ m.entries ∧ e.1 ≠ p := fun e hx => hR' e (List.mem_reverse.1 hx)
  have hi := SortedMap.insert_entries (l.filter P) hL hR he
  have hx := SortedMap.erase_entries hL hR he
  rw [hf] at he
  by_cases hnil : l.filter P = []
  · rw [if_pos hnil]
    cases s <;>
      simp [queueOf, levelsOf, hx, he, List.filter_append, hkeep L hL', hkeep R hR', hkeep _ hLr, hkeep _ hRr, hnil]
  · rw [if_neg hnil]
    cases s <;>
      simp [queueOf, levelsOf, hi, he, List.filter_append, hkeep L hL', hkeep R hR', hkeep _ hLr, hkeep _ hRr]

end LimitOrderBook

end Elsa
