import Mathlib.Order.Bounds.Basic
import Mathlib.Algebra.BigOperators.Group.List.Basic
import Elsa.Frontend.Chart

/-!
# Candles do not depend on the order of the trades

A bucket is built up one trade at a time, and a trade that arrives late may replace the opening or the closing
price.  What the bucket holds at the end is said without an order by `Summarises`: each further trade keeps it
(`Bucket.Holds.add`), and if no two trades have the same timestamp there is only one such bucket
(`Summarises.unique`).
-/

namespace Elsa.Frontend

open Base

def prices (ts : List ReceivedTrade) : Set ℚ := {p | ∃ t ∈ ts, t.price = p}

/-- The candle and the volume bar of some trades. -/
structure Summarises (candleTime : Int) (ts : List ReceivedTrade) (candle : Candle) (vol : Vol) : Prop where
  candle_time : candle.time = candleTime / 1000
  opening : ∃ t ∈ ts, (∀ u ∈ ts, t.tsMs ≤ u.tsMs) ∧ candle.opening = t.price
  close : ∃ t ∈ ts, (∀ u ∈ ts, u.tsMs ≤ t.tsMs) ∧ candle.close = t.price
  high : IsGreatest (prices ts) candle.high
  low : IsLeast (prices ts) candle.low
  vol_time : vol.time = candleTime / 1000
  value : vol.value = (ts.map ReceivedTrade.quantity).sum
  color : vol.color = .rising ↔ candle.opening ≤ candle.close

/-- The bounds that a bucket keeps next to its candle: the candle opens and closes with the trades at the bounds. -/
structure BoundedBy (ts : List ReceivedTrade) (candle : Candle) (bounds : CandleBounds) : Prop where
  first : ∃ t ∈ ts, t.tsMs = bounds.firstTs ∧ candle.opening = t.price
  first_le : ∀ u ∈ ts, bounds.firstTs ≤ u.tsMs
  last : ∃ t ∈ ts, t.tsMs = bounds.lastTs ∧ candle.close = t.price
  le_last : ∀ u ∈ ts, u.tsMs ≤ bounds.lastTs

/-- What a bucket holds after some trades. -/
inductive Bucket.Holds (candleTime : Int) : List ReceivedTrade → Bucket → Prop
  | empty : Holds candleTime [] .empty
  | full {ts candle bounds vol} (h : Summarises candleTime ts candle vol) (hb : BoundedBy ts candle bounds) :
    Holds candleTime ts ⟨some candle, some bounds, some vol⟩

/-! ### One more trade -/

section

variable {candleTime : Int} {ts : List ReceivedTrade} {candle : Candle} {bounds : CandleBounds} {vol : Vol}

/-- The first trade of a bucket. -/
private theorem holds_add_empty (candleTime : Int) (t : ReceivedTrade) :
    Bucket.Holds candleTime [t] (Bucket.empty.add candleTime t.price t.quantity t.tsMs) := by
  have hself : ∀ {u : ReceivedTrade}, u ∈ [t] → u = t := List.mem_singleton.1
  refine .full ?_ ?_
  · exact
      { candle_time := rfl
        opening := ⟨t, List.mem_singleton_self t, fun u hu => by rw [hself hu], rfl⟩
        close := ⟨t, List.mem_singleton_self t, fun u hu => by rw [hself hu], rfl⟩
        high := ⟨⟨t, List.mem_singleton_self t, rfl⟩, fun p hp => by
          obtain ⟨u, hu, rfl⟩ := hp
          rw [hself hu]
          exact le_refl t.price⟩
        low := ⟨⟨t, List.mem_singleton_self t, rfl⟩, fun p hp => by
          obtain ⟨u, hu, rfl⟩ := hp
          rw [hself hu]
          exact le_refl t.price⟩
        vol_time := rfl
        value := (add_zero t.quantity).symm
        color := iff_of_true (if_pos (le_refl t.price)) (le_refl t.price) }
  · exact
      { first := ⟨t, List.mem_singleton_self t, rfl, rfl⟩
        first_le := fun u hu => by rw [hself hu]; exact le_refl t.tsMs
        last := ⟨t, List.mem_singleton_self t, rfl, rfl⟩
        le_last := fun u hu => by rw [hself hu]; exact le_refl t.tsMs }

private theorem prices_concat (ts : List ReceivedTrade) (t : ReceivedTrade) :
    prices (ts ++ [t]) = insert t.price (prices ts) := by
  ext p
  constructor
  · rintro ⟨u, hu, rfl⟩
    rcases List.mem_append.1 hu with hu | hu
    · exact Or.inr ⟨u, hu, rfl⟩
    · rw [List.mem_singleton.1 hu]
      exact Or.inl rfl
  · rintro (rfl | ⟨u, hu, rfl⟩)
    · exact ⟨t, List.mem_append_right _ (List.mem_singleton_self t), rfl⟩
    · exact ⟨u, List.mem_append_left _ hu, rfl⟩

theorem BoundedBy.add (hb : BoundedBy ts candle bounds) (vol : Option Vol) (candleTime : Int) (t : ReceivedTrade) :
    BoundedBy (ts ++ [t]) (Bucket.nextCandle ⟨some candle, some bounds, vol⟩ candleTime t.price t.tsMs).1
      (Bucket.nextCandle ⟨some candle, some bounds, vol⟩ candleTime t.price t.tsMs).2 := by
  have hmem : ∀ {u}, u ∈ ts ++ [t] → u ∈ ts ∨ u = t := fun hu => by
    rcases List.mem_append.1 hu with hu | hu
    · exact Or.inl hu
    · exact Or.inr (List.mem_singleton.1 hu)
  have ht : t ∈ ts ++ [t] := List.mem_append_right _ (List.mem_singleton_self t)
  simp only [Bucket.nextCandle, Option.getD_some]
  constructor
  · by_cases hlt : t.tsMs < bounds.firstTs
    · simp only [if_pos hlt]
      exact ⟨t, ht, rfl, rfl⟩
    · obtain ⟨u, hu, hts, hp⟩ := hb.first
      simp only [if_neg hlt]
      exact ⟨u, List.mem_append_left _ hu, hts, hp⟩
  · intro u hu
    by_cases hlt : t.tsMs < bounds.firstTs
    · simp only [if_pos hlt]
      rcases hmem hu with hu | rfl
      · exact hlt.le.trans (hb.first_le u hu)
      · exact le_refl _
    · simp only [if_neg hlt]
      rcases hmem hu with hu | rfl
      · exact hb.first_le u hu
      · exact not_lt.1 hlt
  · by_cases hle : bounds.lastTs ≤ t.tsMs
    · simp only [if_pos hle]
      exact ⟨t, ht, rfl, rfl⟩
    · obtain ⟨u, hu, hts, hp⟩ := hb.last
      simp only [if_neg hle]
      exact ⟨u, List.mem_append_left _ hu, hts, hp⟩
  · intro u hu
    by_cases hle : bounds.lastTs ≤ t.tsMs
    · simp only [if_pos hle]
      rcases hmem hu with hu | rfl
      · exact (hb.le_last u hu).trans hle
      · exact le_refl _
    · simp only [if_neg hle]
      rcases hmem hu with hu | rfl
      · exact hb.le_last u hu
      · exact (not_le.1 hle).le

/-- The candle opens and closes with the earliest and the latest trade. -/
theorem BoundedBy.opening (hb : BoundedBy ts candle bounds) :
    ∃ t ∈ ts, (∀ u ∈ ts, t.tsMs ≤ u.tsMs) ∧ candle.opening = t.price := by
  obtain ⟨t, ht, hts, hp⟩ := hb.first
  exact ⟨t, ht, fun u hu => hts ▸ hb.first_le u hu, hp⟩

theorem BoundedBy.close (hb : BoundedBy ts candle bounds) :
    ∃ t ∈ ts, (∀ u ∈ ts, u.tsMs ≤ t.tsMs) ∧ candle.close = t.price := by
  obtain ⟨t, ht, hts, hp⟩ := hb.last
  exact ⟨t, ht, fun u hu => hts ▸ hb.le_last u hu, hp⟩

theorem Bucket.Holds.add {b : Bucket} (h : b.Holds candleTime ts) (t : ReceivedTrade) :
    (b.add candleTime t.price t.quantity t.tsMs).Holds candleTime (ts ++ [t]) := by
  cases h with
  | empty => exact holds_add_empty candleTime t
  | @full _ candle bounds vol h hb =>
    have hb' := hb.add (some vol) candleTime t
    refine .full ?_ hb'
    exact
      { candle_time := h.candle_time
        opening := hb'.opening
        close := hb'.close
        high := by
          rw [prices_concat]
          exact (max_comm _ _).subst (h.high.insert t.price)
        low := by
          rw [prices_concat]
          exact (min_comm _ _).subst (h.low.insert t.price)
        vol_time := h.vol_time
        value := by
          rw [List.map_append, List.sum_append, ← h.value]
          exact congrArg _ (add_zero t.quantity).symm
        color := by
          show (if _ then _ else _) = _ ↔ _
          split
          · rename_i hle
            exact iff_of_true rfl hle
          · rename_i hle
            exact iff_of_false (by decide) hle }

/-- What `Bucket.of` builds. -/
private theorem holds_of (candleTime : Int) (ts : List ReceivedTrade) :
    (Bucket.of candleTime ts).Holds candleTime ts := by
  -- from the last trade on, as a bucket grows at the end
  induction ts using List.reverseRecOn with
  | nil => exact .empty
  | append_singleton ts t ih =>
    rw [Bucket.of, List.foldl_append]
    exact ih.add t

/-! ### There is only one such bucket -/

/-- Two trades of a list that are both the earliest, or both the latest, are the same trade. -/
private theorem eq_of_tsMs_le {t u : ReceivedTrade} (hnd : (ts.map ReceivedTrade.tsMs).Nodup) (ht : t ∈ ts)
    (hu : u ∈ ts) (h : t.tsMs ≤ u.tsMs) (h' : u.tsMs ≤ t.tsMs) : t = u :=
  List.inj_on_of_nodup_map hnd ht hu (le_antisymm h h')

theorem Summarises.unique {ts' : List ReceivedTrade} {candle' : Candle} {vol' : Vol}
    (h : Summarises candleTime ts candle vol) (hnd : (ts.map ReceivedTrade.tsMs).Nodup) (hperm : ts'.Perm ts)
    (h' : Summarises candleTime ts' candle' vol') : candle' = candle ∧ vol' = vol := by
  have hprices : prices ts' = prices ts := by
    ext p
    simp only [prices, Set.mem_ofPred_eq, hperm.mem_iff]
  have hopening : candle'.opening = candle.opening := by
    obtain ⟨t, ht, hfirst, hp⟩ := h.opening
    obtain ⟨t', ht', hfirst', hp'⟩ := h'.opening
    rw [hp, hp', eq_of_tsMs_le hnd ht (hperm.mem_iff.1 ht') (hfirst t' (hperm.mem_iff.1 ht'))
      (hfirst' t (hperm.mem_iff.2 ht))]
  have hclose : candle'.close = candle.close := by
    obtain ⟨t, ht, hlast, hp⟩ := h.close
    obtain ⟨t', ht', hlast', hp'⟩ := h'.close
    rw [hp, hp', eq_of_tsMs_le hnd ht (hperm.mem_iff.1 ht') (hlast' t (hperm.mem_iff.2 ht))
      (hlast t' (hperm.mem_iff.1 ht'))]
  have hhigh : candle'.high = candle.high := (hprices ▸ h'.high).unique h.high
  have hlow : candle'.low = candle.low := (hprices ▸ h'.low).unique h.low
  have hvalue : vol'.value = vol.value := by
    rw [h.value, h'.value]
    exact (hperm.map _).sum_eq
  have hcolor : vol'.color = .rising ↔ vol.color = .rising := by
    rw [h.color, h'.color, hopening, hclose]
  constructor
  · have htime := h'.candle_time.trans h.candle_time.symm
    cases candle
    cases candle'
    simp only [Candle.mk.injEq]
    exact ⟨htime, hopening, hhigh, hlow, hclose⟩
  · have htime := h'.vol_time.trans h.vol_time.symm
    obtain ⟨_, _, color⟩ := vol
    obtain ⟨_, _, color'⟩ := vol'
    simp only [Vol.mk.injEq]
    refine ⟨htime, hvalue, ?_⟩
    cases color <;> cases color' <;> simp_all

namespace Bucket.Holds

variable {b : Bucket}

private theorem eq_empty (h : b.Holds candleTime []) : b = .empty := by
  cases h with
  | empty => rfl
  | full h hb =>
    obtain ⟨t, ht, -⟩ := h.opening
    cases ht

private theorem exists_of_ne_nil (h : b.Holds candleTime ts) (hne : ts ≠ []) :
    ∃ candle vol, b.candle = some candle ∧ b.vol = some vol ∧ Summarises candleTime ts candle vol := by
  cases h with
  | empty => exact absurd rfl hne
  | @full _ candle bounds vol h hb => exact ⟨candle, vol, rfl, rfl, h⟩

private theorem of_perm {ts' : List ReceivedTrade} {b' : Bucket} (h : b.Holds candleTime ts)
    (hnd : (ts.map ReceivedTrade.tsMs).Nodup) (hperm : ts'.Perm ts) (h' : b'.Holds candleTime ts') :
    b'.candle = b.candle ∧ b'.vol = b.vol := by
  by_cases hnil : ts = []
  · subst hnil
    rw [hperm.eq_nil] at h'
    rw [h.eq_empty, h'.eq_empty]
    exact ⟨rfl, rfl⟩
  · have hnil' : ts' ≠ [] := fun hn => hnil (hn ▸ hperm).nil_eq.symm
    obtain ⟨candle, vol, hc, hv, hs⟩ := h.exists_of_ne_nil hnil
    obtain ⟨candle', vol', hc', hv', hs'⟩ := h'.exists_of_ne_nil hnil'
    obtain ⟨rfl, rfl⟩ := hs.unique hnd hperm hs'
    exact ⟨hc'.trans hc.symm, hv'.trans hv.symm⟩

end Bucket.Holds

end

/-! ### The chart -/

/-- The trades of a bucket in another order. -/
private theorem contributors_perm {ts ts' : List ReceivedTrade} (h : ts'.Perm ts) (i b : Int) :
    (contributors i b ts').Perm (contributors i b ts) := h.filter _

/-- In whatever order the trades come, a bucket of a timeframe is there exactly when a trade falls into it, and then
it holds the candle and the volume of these trades, which are the same for every order. -/
theorem candles_of_perm {ts ts' : List ReceivedTrade} (hnd : (ts.map ReceivedTrade.tsMs).Nodup)
    (hperm : ts'.Perm ts) {i : Int} (hi : i ∈ timeframes) (b : Int) :
    ((chartOf ts').bucket i b).candle = ((chartOf ts).bucket i b).candle ∧
    ((chartOf ts').bucket i b).vol = ((chartOf ts).bucket i b).vol ∧
    (contributors i b ts = [] → ((chartOf ts').bucket i b).candle = none ∧ ((chartOf ts').bucket i b).vol = none) ∧
    (contributors i b ts ≠ [] → ∃ candle vol, ((chartOf ts').bucket i b).candle = some candle ∧
      ((chartOf ts').bucket i b).vol = some vol ∧ Summarises b (contributors i b ts) candle vol) := by
  have h := holds_of b (contributors i b ts)
  have hsame := h.of_perm (hnd.sublist (List.filter_sublist.map _)) (contributors_perm hperm i b)
    (holds_of b (contributors i b ts'))
  rw [← bucket_chartOf hi] at h
  rw [← bucket_chartOf hi, ← bucket_chartOf hi] at hsame
  obtain ⟨hcandle, hvol⟩ := hsame
  refine ⟨hcandle, hvol, fun hnil => ?_, fun hne => ?_⟩
  · rw [hnil] at h
    rw [hcandle, hvol, h.eq_empty]
    exact ⟨rfl, rfl⟩
  · rw [hcandle, hvol]
    exact h.exists_of_ne_nil hne

/-- Three trades of one minute, of which the last one to arrive is the earliest. -/
theorem candles_sample : ∃ candle vol,
    ((chartOf [⟨"b", 5, 1, 70000⟩, ⟨"c", 3, 2, 80000⟩, ⟨"a", 4, 1, 61000⟩]).bucket 60000 60000).candle = some candle ∧
    ((chartOf [⟨"b", 5, 1, 70000⟩, ⟨"c", 3, 2, 80000⟩, ⟨"a", 4, 1, 61000⟩]).bucket 60000 60000).vol = some vol ∧
    Summarises 60000 [⟨"a", 4, 1, 61000⟩, ⟨"b", 5, 1, 70000⟩, ⟨"c", 3, 2, 80000⟩] candle vol := by
  have hperm : [⟨"b", 5, 1, 70000⟩, ⟨"c", 3, 2, 80000⟩, ⟨"a", 4, 1, 61000⟩].Perm
      [(⟨"a", 4, 1, 61000⟩ : ReceivedTrade), ⟨"b", 5, 1, 70000⟩, ⟨"c", 3, 2, 80000⟩] := by decide
  have hall : contributors 60000 60000 [⟨"a", 4, 1, 61000⟩, ⟨"b", 5, 1, 70000⟩, ⟨"c", 3, 2, 80000⟩] =
      [⟨"a", 4, 1, 61000⟩, ⟨"b", 5, 1, 70000⟩, ⟨"c", 3, 2, 80000⟩] := by decide
  have h := (candles_of_perm (by decide) hperm (by decide : (60000 : Int) ∈ timeframes) 60000).2.2.2
  rw [hall] at h
  exact h (by decide)

end Elsa.Frontend
