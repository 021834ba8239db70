import Mathlib.Data.List.Induction
import Mathlib.Tactic.Linarith
import Elsa.Base.SortedMap
import Elsa.Base.Steps
import Elsa.Frontend.Values

/-!
# Candles and volume bars

`ingestTrade` adds a trade to one bucket of every timeframe.  The maps of the page are read by key, or as a whole in
the order of time, so they are sorted maps here.

A trade changes the bucket of each timeframe that it falls into (`bucket_ingestTrade`), and nothing else.  So a
bucket of a chart is made from the trades that fall into it, in the order in which they were added
(`bucket_chartOf`), and the volumes of a timeframe add up to the quantities of all trades (`volumeTotal_chartOf`).
-/

namespace Elsa.Frontend

open Base

/-- The lengths of `TIMEFRAMES` in milliseconds. -/
def timeframes : List Int := [60000, 300000, 900000, 3600000, 14400000, 86400000]

structure Candle where
  time : ℚ
  /-- `open` in the source -/
  opening : ℚ
  high : ℚ
  low : ℚ
  close : ℚ
deriving DecidableEq

structure CandleBounds where
  firstTs : Int
  lastTs : Int
deriving DecidableEq

inductive VolColor
  | rising
  | falling
deriving DecidableEq

structure Vol where
  time : ℚ
  value : ℚ
  color : VolColor
deriving DecidableEq

/-- What the maps of one timeframe hold at one time. -/
structure Bucket where
  candle : Option Candle
  bounds : Option CandleBounds
  vol : Option Vol
deriving DecidableEq

namespace Bucket

def empty : Bucket := ⟨none, none, none⟩

def nextCandle (b : Bucket) (candleTime : Int) (price : ℚ) (tradeTime : Int) : Candle × CandleBounds :=
  match b.candle with
  | none => (⟨candleTime / 1000, price, price, price, price⟩, ⟨tradeTime, tradeTime⟩)
  | some candle =>
    let bounds := b.bounds.getD ⟨tradeTime, tradeTime⟩
    ({ candle with
        opening := if tradeTime < bounds.firstTs then price else candle.opening
        close := if bounds.lastTs ≤ tradeTime then price else candle.close
        high := max candle.high price
        low := min candle.low price },
      { firstTs := if tradeTime < bounds.firstTs then tradeTime else bounds.firstTs
        lastTs := if bounds.lastTs ≤ tradeTime then tradeTime else bounds.lastTs })

def nextVol (b : Bucket) (candleTime : Int) (candle : Candle) (quantity : ℚ) : Vol :=
  let volColor := if candle.opening ≤ candle.close then VolColor.rising else VolColor.falling
  match b.vol with
  | none => ⟨candleTime / 1000, quantity, volColor⟩
  | some vol => { vol with value := vol.value + quantity, color := volColor }

/-- The bucket after one more trade. -/
def add (b : Bucket) (candleTime : Int) (price quantity : ℚ) (tradeTime : Int) : Bucket :=
  let next := b.nextCandle candleTime price tradeTime
  ⟨some next.1, some next.2, some (b.nextVol candleTime next.1 quantity)⟩

end Bucket

structure Chart where
  allCandles : SortedMap Int (SortedMap Int Candle)
  candleBounds : SortedMap Int (SortedMap Int CandleBounds)
  allVolumes : SortedMap Int (SortedMap Int Vol)

def candleTimeOf (intervalMs tradeTime : Int) : Int := tradeTime / intervalMs * intervalMs

/-- The interval of a timeframe that a time lies in. -/
private theorem candleTimeOf_eq_iff {intervalMs : Int} (hpos : 0 < intervalMs) (tradeTime candleTime : Int) :
    candleTimeOf intervalMs tradeTime = candleTime ↔
      intervalMs ∣ candleTime ∧ candleTime ≤ tradeTime ∧ tradeTime < candleTime + intervalMs := by
  have hle := Int.ediv_mul_le tradeTime (Int.ne_of_gt hpos)
  have hlt := Int.lt_ediv_add_one_mul_self tradeTime hpos
  constructor
  · rintro rfl
    refine ⟨Int.dvd_mul_left _ _, hle, ?_⟩
    rwa [Int.add_mul, Int.one_mul] at hlt
  · rintro ⟨⟨k, rfl⟩, hk, hk'⟩
    have hdiv : tradeTime / intervalMs = k := by
      rw [Int.ediv_eq_iff_of_pos hpos, Int.mul_comm k]
      exact ⟨hk, hk'⟩
    rw [candleTimeOf, hdiv, Int.mul_comm]

namespace Chart

def empty : Chart := ⟨.empty, .empty, .empty⟩

def tfMap (c : Chart) (intervalMs : Int) : SortedMap Int Candle := (c.allCandles.find? intervalMs).getD .empty

def boundsMap (c : Chart) (intervalMs : Int) : SortedMap Int CandleBounds :=
  (c.candleBounds.find? intervalMs).getD .empty

def volMap (c : Chart) (intervalMs : Int) : SortedMap Int Vol := (c.allVolumes.find? intervalMs).getD .empty

def bucket (c : Chart) (intervalMs candleTime : Int) : Bucket :=
  ⟨(c.tfMap intervalMs).find? candleTime, (c.boundsMap intervalMs).find? candleTime,
    (c.volMap intervalMs).find? candleTime⟩

/-- The body of the loop of `ingestTrade`. -/
def ingestInto (price quantity : ℚ) (tradeTime : Int) (c : Chart) (intervalMs : Int) : Chart :=
  let candleTime := candleTimeOf intervalMs tradeTime
  let b := c.bucket intervalMs candleTime
  let next := b.nextCandle candleTime price tradeTime
  let vol := b.nextVol candleTime next.1 quantity
  { allCandles := c.allCandles.insert intervalMs ((c.tfMap intervalMs).insert candleTime next.1)
    candleBounds := c.candleBounds.insert intervalMs ((c.boundsMap intervalMs).insert candleTime next.2)
    allVolumes := c.allVolumes.insert intervalMs ((c.volMap intervalMs).insert candleTime vol) }

def ingestTrade (c : Chart) (price quantity : ℚ) (tradeTime : Int) : Chart :=
  timeframes.foldl (ingestInto price quantity tradeTime) c

/-- The volume of a timeframe, over all its buckets. -/
def volumeTotal (c : Chart) (intervalMs : Int) : ℚ := (c.volMap intervalMs).total Vol.value

variable {c : Chart} {price quantity : ℚ} {tradeTime i j b : Int}

/-! ### One timeframe -/

private theorem bucket_ingestInto_self (c : Chart) (price quantity : ℚ) (tradeTime i : Int) :
    (ingestInto price quantity tradeTime c i).bucket i (candleTimeOf i tradeTime) =
      (c.bucket i (candleTimeOf i tradeTime)).add (candleTimeOf i tradeTime) price quantity tradeTime := by
  simp [ingestInto, bucket, tfMap, boundsMap, volMap, Bucket.add, SortedMap.find?_insert_self]

private theorem bucket_ingestInto_of_ne_time (h : b ≠ candleTimeOf i tradeTime) :
    (ingestInto price quantity tradeTime c i).bucket i b = c.bucket i b := by
  simp [ingestInto, bucket, tfMap, boundsMap, volMap, SortedMap.find?_insert_self, SortedMap.find?_insert_of_ne _ h]

private theorem bucket_ingestInto_of_ne (h : j ≠ i) :
    (ingestInto price quantity tradeTime c i).bucket j b = c.bucket j b := by
  simp [ingestInto, bucket, tfMap, boundsMap, volMap, SortedMap.find?_insert_of_ne _ h]

private theorem value_nextVol (b : Bucket) (candleTime : Int) (candle : Candle) (quantity : ℚ) :
    (b.nextVol candleTime candle quantity).value = (b.vol.map Vol.value).getD 0 + quantity := by
  unfold Bucket.nextVol
  cases b.vol with
  | none => exact (zero_add quantity).symm
  | some vol => rfl

private theorem volumeTotal_ingestInto_self (c : Chart) (price quantity : ℚ) (tradeTime i : Int) :
    (ingestInto price quantity tradeTime c i).volumeTotal i = c.volumeTotal i + quantity := by
  let k := candleTimeOf i tradeTime
  let vol := (c.bucket i k).nextVol k ((c.bucket i k).nextCandle k price tradeTime).1 quantity
  have hmap : (ingestInto price quantity tradeTime c i).volMap i = (c.volMap i).insert k vol := by
    rw [volMap, ingestInto, SortedMap.find?_insert_self, Option.getD_some]
  -- the old value of the bucket goes out of the total and into the new value
  have hvalue : vol.value = (((c.volMap i).find? k).map Vol.value).getD 0 + quantity := value_nextVol _ _ _ _
  have htotal := (c.volMap i).total_insert Vol.value k vol
  rw [volumeTotal, volumeTotal, hmap]
  linarith

private theorem volumeTotal_ingestInto_of_ne (h : j ≠ i) :
    (ingestInto price quantity tradeTime c i).volumeTotal j = c.volumeTotal j := by
  simp [ingestInto, volumeTotal, volMap, SortedMap.find?_insert_of_ne _ h]

/-! ### All timeframes -/

private theorem nodup_timeframes : timeframes.Nodup := by decide

private theorem pos_of_mem_timeframes : ∀ i ∈ timeframes, 0 < i := by decide

/-- A trade changes the bucket of a timeframe that it falls into. -/
theorem bucket_ingestTrade (hi : i ∈ timeframes) (c : Chart) (b : Int) (price quantity : ℚ) (tradeTime : Int) :
    (c.ingestTrade price quantity tradeTime).bucket i b =
      if candleTimeOf i tradeTime = b then (c.bucket i b).add b price quantity tradeTime else c.bucket i b := by
  refine foldl_observe (fun c => c.bucket i b)
    (fun bk => if candleTimeOf i tradeTime = b then bk.add b price quantity tradeTime else bk)
    (fun s => ?_) (fun s k hk => bucket_ingestInto_of_ne hk.symm) nodup_timeframes hi c
  split
  · rename_i hb
    subst hb
    exact bucket_ingestInto_self s price quantity tradeTime i
  · rename_i hb
    exact bucket_ingestInto_of_ne_time (Ne.symm hb)

private theorem volumeTotal_ingestTrade (hi : i ∈ timeframes) (c : Chart) (price quantity : ℚ) (tradeTime : Int) :
    (c.ingestTrade price quantity tradeTime).volumeTotal i = c.volumeTotal i + quantity :=
  foldl_observe (fun c => c.volumeTotal i) (fun v => v + quantity)
    (fun s => volumeTotal_ingestInto_self s price quantity tradeTime i)
    (fun _ _ hk => volumeTotal_ingestInto_of_ne hk.symm)
    nodup_timeframes hi c

/-! ### The chart of a list of trades -/

def ingest (c : Chart) (t : ReceivedTrade) : Chart := c.ingestTrade t.price t.quantity t.tsMs

end Chart

/-- The chart after some trades, one after the other. -/
def chartOf (ts : List ReceivedTrade) : Chart := ts.foldl Chart.ingest .empty

/-- The bucket that some trades make, one after the other. -/
def Bucket.of (candleTime : Int) (ts : List ReceivedTrade) : Bucket :=
  ts.foldl (fun b t => b.add candleTime t.price t.quantity t.tsMs) .empty

/-- The trades of a bucket: those in the interval of the timeframe that begins at the given time.  Intervals begin at
the multiples of their length. -/
def contributors (intervalMs candleTime : Int) (ts : List ReceivedTrade) : List ReceivedTrade :=
  ts.filter fun t => intervalMs ∣ candleTime ∧ candleTime ≤ t.tsMs ∧ t.tsMs < candleTime + intervalMs

theorem chartOf_append (ts us : List ReceivedTrade) : chartOf (ts ++ us) = us.foldl Chart.ingest (chartOf ts) :=
  List.foldl_append

theorem bucket_chartOf {i : Int} (hi : i ∈ timeframes) (b : Int) (ts : List ReceivedTrade) :
    (chartOf ts).bucket i b = .of b (contributors i b ts) := by
  -- from the last trade on, as a chart grows at the end
  induction ts using List.reverseRecOn with
  | nil => rfl
  | append_singleton ts t ih =>
    have hiff := candleTimeOf_eq_iff (Chart.pos_of_mem_timeframes i hi) t.tsMs b
    rw [chartOf_append, List.foldl_cons, List.foldl_nil, Chart.ingest, Chart.bucket_ingestTrade hi, ih, contributors,
      contributors, List.filter_append]
    by_cases ht : i ∣ b ∧ b ≤ t.tsMs ∧ t.tsMs < b + i
    · simp [Bucket.of, hiff, ht]
    · simp [hiff, ht]

theorem volumeTotal_chartOf {i : Int} (hi : i ∈ timeframes) (ts : List ReceivedTrade) :
    (chartOf ts).volumeTotal i = (ts.map ReceivedTrade.quantity).sum := by
  induction ts using List.reverseRecOn with
  | nil => rfl
  | append_singleton ts t ih =>
    rw [chartOf_append, List.foldl_cons, List.foldl_nil, Chart.ingest, Chart.volumeTotal_ingestTrade hi, ih]
    simp

end Elsa.Frontend
