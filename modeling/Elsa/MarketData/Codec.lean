import Mathlib.Data.Rat.Lemmas
import Mathlib.Tactic.NormNum
import Elsa.Engine.Trades
import Elsa.MarketData.Json

/-!
# The JSON codec of the market data

`Trade` and `TopOrderBookLevelAggregates` have a `to_json` and a `from_json`.  Prices and quantities are sent in
units, as doubles, and kept in hundredths.

The decoders are not the inverse of the encoders.  `Trade::from_json` takes a comparison that is 0 for equal texts as
a truth value, so that a buyer comes back as a seller.  Both decoders read the time as a 32-bit number, and that of
the snapshots reads the quantities of the levels without their fraction (`decoded_trade`, `decoded_snapshot`).
-/

namespace Elsa

open Base MarketData MarketData.NlohmannJson

/-- `core::constants::decimal_to_int_multiplier`, as the double it is. -/
def multiplier : ℚ := 100

/-- `BUY_STR` and `SELL_STR`. -/
def sideText (isTakerBuyer : Bool) : String := if isTakerBuyer then "BUY" else "SELL"

/-- A double is assigned to an `int`. -/
def toInt (x : ℚ) : Int := Arith.machine.int (truncate x)

/-- `static_cast<uint64_t>` of an `int`. -/
def toUint64 (n : Int) : Nat := (n % 18446744073709551616).toNat

/-- A decoder fails on its input, or in the constructor it calls. -/
inductive DecodeError
  | json (e : JsonError)
  | fault (e : Fault)
deriving DecidableEq

section

variable {J : Type} [NlohmannJson J]

/-- `j.at(key).get<T>()`. -/
def getAt {α : Type} (j : J) (key : String) (get : J → Except JsonError α) : Except JsonError α :=
  (at_ j key).bind get

/-! ### Trades -/

namespace Trade

def toJson (t : Trade) : J :=
  object [("ticker", string t.ticker), ("trade_id", string t.tradeId),
    ("taker_side", string (sideText t.isTakerBuyer)), ("price", numberFloat (t.price / multiplier)),
    ("quantity", numberFloat (t.quantity / multiplier)), ("taker_id", string t.takerId),
    ("maker_id", string t.makerId), ("taker_order_id", numberInteger t.takerOrderId),
    ("maker_order_id", numberInteger t.makerOrderId), ("create_timestamp", numberUnsigned t.createTimestamp)]

/-- The fields that `from_json` hands to the constructor. -/
def readJson (j : J) : Except JsonError Trade := do
  let ticker ← getAt j "ticker" getString
  let side ← getAt j "taker_side" getString
  -- `compare` is 0 when the texts are equal
  let isTakerBuyer := side != "BUY"
  let price ← getAt j "price" getDouble
  let quantity ← getAt j "quantity" getDouble
  let tradeId ← getAt j "trade_id" getString
  let takerId ← getAt j "taker_id" getString
  let makerId ← getAt j "maker_id" getString
  let takerOrderId ← getAt j "taker_order_id" getInt
  let makerOrderId ← getAt j "maker_order_id" getInt
  let createTimestamp ← getAt j "create_timestamp" getInt
  return { ticker, price := toInt (price * multiplier), quantity := toInt (quantity * multiplier), tradeId, takerId
           makerId, takerOrderId, makerOrderId, isTakerBuyer, createTimestamp := toUint64 createTimestamp }

/-- `from_json`; the memory of the new trade held `raw`. -/
def fromJson (raw : RawTrade) (j : J) : Except DecodeError Trade := do
  let t ← (readJson j).mapError .json
  (t.make raw).mapError .fault

end Trade

/-! ### Snapshots -/

namespace LevelAggregate

def toJson (level : LevelAggregate) : J :=
  object [("price", numberFloat (level.price / multiplier)), ("quantity", numberFloat (level.quantity / multiplier))]

def readJson (j : J) : Except JsonError LevelAggregate := do
  let price ← getAt j "price" getDouble
  let quantity ← getAt j "quantity" getInt
  return ⟨toInt (price * multiplier), toInt (quantity * multiplier)⟩

end LevelAggregate

namespace TopOrderBookLevelAggregates

def toJson (s : TopOrderBookLevelAggregates) : J :=
  object [("ticker", string s.ticker), ("bids", array (s.bidLevelAggregates.map LevelAggregate.toJson)),
    ("asks", array (s.askLevelAggregates.map LevelAggregate.toJson)),
    ("create_timestamp", numberUnsigned s.createTimestamp)]

/-- The loop over the levels of a side, from level `i` on with `n` to go. -/
def readLevels (j : J) (side : String) : Nat → Nat → Except JsonError (List LevelAggregate)
  | 0, _ => .ok []
  | n + 1, i => do
    let level ← LevelAggregate.readJson (← elem (← at_ j side) i)
    let levels ← readLevels j side n (i + 1)
    return level :: levels

def fromJson (j : J) : Except DecodeError TopOrderBookLevelAggregates := do
  let ticker ← (getAt j "ticker" getString).mapError .json
  let createTimestamp ← (getAt j "create_timestamp" getInt).mapError .json
  let snapshot ← (make ticker (toUint64 createTimestamp)).mapError .fault
  let bids ← (readLevels j "bids" snapshot.bidLevelAggregates.length 0).mapError .json
  let asks ← (readLevels j "asks" snapshot.askLevelAggregates.length 0).mapError .json
  return { snapshot with bidLevelAggregates := bids, askLevelAggregates := asks }

end TopOrderBookLevelAggregates

end

/-! ### What the constructors and the engine produce -/

/-- The constructor has made the trade, and the numbers are those of their types. -/
structure Trade.WellTyped (t : Trade) : Prop where
  made : ∃ raw fields, Trade.make raw fields = .ok t
  price : IsInt32 t.price
  quantity : IsInt32 t.quantity
  takerOrderId : IsInt32 t.takerOrderId
  makerOrderId : IsInt32 t.makerOrderId
  createTimestamp : t.createTimestamp < 18446744073709551616

/-- The constructor has made the snapshot that the levels were put into. -/
structure TopOrderBookLevelAggregates.WellTyped (s : TopOrderBookLevelAggregates) : Prop where
  made : ∃ ticker empty, make ticker s.createTimestamp = .ok empty ∧ s.ticker = empty.ticker
  bids : s.bidLevelAggregates.length = orderBookAggregateLevels
  asks : s.askLevelAggregates.length = orderBookAggregateLevels
  levels : ∀ level ∈ s.bidLevelAggregates ++ s.askLevelAggregates, IsInt32 level.price ∧ IsInt32 level.quantity
  createTimestamp : s.createTimestamp < 18446744073709551616

/-! ### Numbers -/

private theorem truncate_div (a : Int) {b : Int} (hb : 0 < b) : truncate (a / b : ℚ) = a.tdiv b := by
  obtain ⟨c, ha, hden⟩ := Rat.exists_eq_mul_div_num_and_eq_mul_div_den a hb.ne'
  have hpos : 0 < ((a / b : ℚ).den : Int) := Int.natCast_pos.2 (a / b : ℚ).den_pos
  have hc : 0 < c := (mul_pos_iff_of_pos_right hpos).1 (hden ▸ hb)
  calc truncate (a / b : ℚ) = (c * (a / b : ℚ).num).tdiv (c * (a / b : ℚ).den) :=
    (Int.mul_tdiv_mul_of_pos _ _ hc).symm
    _ = a.tdiv b := (congrArg₂ Int.tdiv ha hden).symm

private theorem truncate_intCast (a : Int) : truncate (a : ℚ) = a := by
  simp [truncate]

/-- A price is read as it was written. -/
private theorem toInt_price {n : Int} (h : IsInt32 n) : toInt (n / multiplier * multiplier) = n := by
  have heq : (n : ℚ) / multiplier * multiplier = n := div_mul_cancel₀ _ (by unfold multiplier; norm_num)
  rw [toInt, heq, truncate_intCast, Arith.machine.int_eq n h]

private theorem isInt32_tdiv {n : Int} (h : IsInt32 n) : IsInt32 (n.tdiv 100) ∧ IsInt32 (n.tdiv 100 * 100) := by
  unfold IsInt32 at *
  have hsign : Int.sign 100 = 1 := rfl
  rw [Int.tdiv_eq_ediv, hsign]
  split <;> omega

private theorem truncate_quantity (n : Int) : truncate (n / multiplier) = n.tdiv 100 :=
  truncate_div n (show (0 : Int) < 100 by decide)

/-- A whole number of units in hundredths. -/
private theorem toInt_quantity {n : Int} (h : IsInt32 n) :
    toInt ((n.tdiv 100 : Int) * multiplier) = n.tdiv 100 * 100 := by
  have hcast : ((n.tdiv 100 : Int) : ℚ) * multiplier = ((n.tdiv 100 * 100 : Int) : ℚ) := by
    rw [multiplier, Int.cast_mul]
    rfl
  rw [hcast, toInt, truncate_intCast, Arith.machine.int_eq _ (isInt32_tdiv h).2]

private theorem tdiv_mul_eq_self {n : Int} : n.tdiv 100 * 100 = n ↔ 100 ∣ n := by
  constructor
  · intro h
    exact Dvd.intro_left _ h
  · exact Int.tdiv_mul_cancel

/-- The time as `from_json` reads it. -/
def readTimestamp (createTimestamp : Nat) : Nat := toUint64 (Arith.machine.int createTimestamp)

/-- The times that a 32-bit number keeps; the high ones come from its sign. -/
private theorem readTimestamp_eq_self {ts : Nat} (h : ts < 18446744073709551616) :
    readTimestamp ts = ts ↔ ts < 2147483648 ∨ 18446744071562067968 ≤ ts := by
  unfold readTimestamp toUint64 Arith.machine Int.bmod
  dsimp only
  split <;> omega

section

variable {J : Type} [NlohmannJson J]

private theorem getAt_object {α : Type} {fields : List (String × J)} {key : String} {value : J}
    {get : J → Except JsonError α} {a : α} (h : fields.lookup key = some value) (hget : get value = .ok a) :
    getAt (object fields) key get = .ok a := by
  rw [getAt, at_object h]
  exact hget

/-! ### Trades -/

private theorem Trade.readJson_toJson {t : Trade} (ht : t.WellTyped) :
    readJson (t.toJson : J) =
      .ok { t with isTakerBuyer := !t.isTakerBuyer, createTimestamp := readTimestamp t.createTimestamp } := by
  have hread : readJson (t.toJson : J) = .ok
      { t with
        price := toInt (t.price / multiplier * multiplier)
        quantity := toInt (t.quantity / multiplier * multiplier)
        isTakerBuyer := sideText t.isTakerBuyer != "BUY"
        createTimestamp := readTimestamp t.createTimestamp } := by
    refine bind_eq_ok.2 ⟨_, getAt_object rfl (getString_string _), ?_⟩
    refine bind_eq_ok.2 ⟨_, getAt_object rfl (getString_string _), ?_⟩
    refine bind_eq_ok.2 ⟨_, getAt_object rfl (getDouble_float _), ?_⟩
    refine bind_eq_ok.2 ⟨_, getAt_object rfl (getDouble_float _), ?_⟩
    refine bind_eq_ok.2 ⟨_, getAt_object rfl (getString_string _), ?_⟩
    refine bind_eq_ok.2 ⟨_, getAt_object rfl (getString_string _), ?_⟩
    refine bind_eq_ok.2 ⟨_, getAt_object rfl (getString_string _), ?_⟩
    refine bind_eq_ok.2 ⟨_, getAt_object rfl (getInt_integer ht.takerOrderId), ?_⟩
    refine bind_eq_ok.2 ⟨_, getAt_object rfl (getInt_integer ht.makerOrderId), ?_⟩
    exact bind_eq_ok.2 ⟨_, getAt_object rfl (getInt_unsigned _), rfl⟩
  have hside : (sideText t.isTakerBuyer != "BUY") = !t.isTakerBuyer := by
    cases t.isTakerBuyer <;> rfl
  rw [hread, toInt_price ht.price, toInt_price ht.quantity, hside]

/-- The constructor looks at the texts alone. -/
private theorem Trade.make_of_texts (raw : RawTrade) {t : Trade} (hfits : t.Fits) (hheld : t.held = t)
    (isTakerBuyer : Bool) (createTimestamp : Nat) :
    { t with isTakerBuyer, createTimestamp : Trade }.make raw = .ok { t with isTakerBuyer, createTimestamp } := by
  have hall : Fits { t with isTakerBuyer, createTimestamp } :=
    ⟨hfits.ticker, hfits.tradeId, hfits.takerId, hfits.makerId⟩
  rw [make_of_fits raw hall]
  exact congrArg (fun u : Trade => Except.ok { u with isTakerBuyer, createTimestamp }) hheld

/-- A trade comes back with the other side, and with the low bits of its time. -/
theorem decoded_trade (raw : RawTrade) {t : Trade} (ht : t.WellTyped) :
    Trade.fromJson raw (t.toJson : J) =
      .ok { t with isTakerBuyer := !t.isTakerBuyer, createTimestamp := readTimestamp t.createTimestamp } := by
  obtain ⟨raw', fields, hmade⟩ := ht.made
  obtain ⟨hfits, hheld⟩ := Trade.make_of_made hmade
  rw [Trade.fromJson, Trade.readJson_toJson ht]
  exact congrArg (Except.mapError DecodeError.fault) (Trade.make_of_texts raw hfits hheld _ _)

/-! ### Snapshots -/

/-- What is read of a level. -/
def LevelAggregate.decoded (level : LevelAggregate) : LevelAggregate := ⟨level.price, level.quantity.tdiv 100 * 100⟩

private theorem LevelAggregate.readJson_toJson {level : LevelAggregate} (hprice : IsInt32 level.price)
    (hquantity : IsInt32 level.quantity) : readJson (level.toJson : J) = .ok level.decoded := by
  have hunits : IsInt32 (truncate (level.quantity / multiplier)) := by
    rw [truncate_quantity]
    exact (isInt32_tdiv hquantity).1
  have hread : readJson (level.toJson : J) = .ok ⟨toInt (level.price / multiplier * multiplier),
      toInt (truncate (level.quantity / multiplier) * multiplier)⟩ := by
    refine bind_eq_ok.2 ⟨_, getAt_object rfl (getDouble_float _), ?_⟩
    exact bind_eq_ok.2 ⟨_, getAt_object rfl (getInt_float hunits), rfl⟩
  rw [hread, toInt_price hprice, truncate_quantity, toInt_quantity hquantity, decoded]

/-- The loop reads the levels that are left. -/
private theorem readLevels_toJson (j : J) (side : String) {levels : List LevelAggregate}
    (hj : at_ j side = .ok (array (levels.map LevelAggregate.toJson)))
    (hlevels : ∀ level ∈ levels, IsInt32 level.price ∧ IsInt32 level.quantity) (n i : Nat)
    (hlen : i + n = levels.length) :
    TopOrderBookLevelAggregates.readLevels j side n i = .ok ((levels.drop i).map LevelAggregate.decoded) := by
  induction n generalizing i with
  | zero =>
    rw [TopOrderBookLevelAggregates.readLevels, List.drop_of_length_le (by omega)]
    rfl
  | succ n ih =>
    have hi : i < levels.length := by omega
    have helem : elem (array (levels.map LevelAggregate.toJson)) i = .ok (levels[i].toJson : J) :=
      elem_array (by simp [hi])
    have hread : LevelAggregate.readJson (levels[i].toJson : J) = .ok levels[i].decoded :=
      LevelAggregate.readJson_toJson (hlevels _ (List.getElem_mem hi)).1 (hlevels _ (List.getElem_mem hi)).2
    rw [List.drop_eq_getElem_cons hi]
    refine bind_eq_ok.2 ⟨_, hj, bind_eq_ok.2 ⟨_, helem, bind_eq_ok.2 ⟨_, hread, ?_⟩⟩⟩
    exact bind_eq_ok.2 ⟨_, ih (i + 1) (by omega), rfl⟩

/-- A snapshot comes back with the low bits of its time, and its quantities without fraction. -/
theorem decoded_snapshot {s : TopOrderBookLevelAggregates} (hs : s.WellTyped) :
    TopOrderBookLevelAggregates.fromJson (s.toJson : J) = .ok
      { s with
        bidLevelAggregates := s.bidLevelAggregates.map LevelAggregate.decoded
        askLevelAggregates := s.askLevelAggregates.map LevelAggregate.decoded
        createTimestamp := readTimestamp s.createTimestamp } := by
  obtain ⟨text, empty, hempty, hticker⟩ := hs.made
  obtain ⟨hfits, hnulFree⟩ := TopOrderBookLevelAggregates.ticker_of_made hempty
  rw [← hticker] at hfits hnulFree
  have hmake := TopOrderBookLevelAggregates.make_of_fits hfits (readTimestamp s.createTimestamp)
  rw [CString.upToNul_of_nulFree hnulFree] at hmake
  have hlevels := List.forall_mem_append.1 hs.levels
  have hbids := readLevels_toJson (s.toJson : J) "bids" (at_object rfl) hlevels.1 orderBookAggregateLevels 0
    (by rw [hs.bids, Nat.zero_add])
  have hasks := readLevels_toJson (s.toJson : J) "asks" (at_object rfl) hlevels.2 orderBookAggregateLevels 0
    (by rw [hs.asks, Nat.zero_add])
  have htext : getAt (s.toJson : J) "ticker" getString = .ok s.ticker := getAt_object rfl (getString_string _)
  have htime : getAt (s.toJson : J) "create_timestamp" getInt = .ok (Arith.machine.int s.createTimestamp) :=
    getAt_object rfl (getInt_unsigned _)
  refine bind_eq_ok.2 ⟨_, congrArg _ htext, bind_eq_ok.2
    ⟨_, congrArg _ htime, bind_eq_ok.2 ⟨_, congrArg _ hmake, ?_⟩⟩⟩
  simp only [List.length_replicate]
  exact bind_eq_ok.2 ⟨_, congrArg _ hbids, bind_eq_ok.2 ⟨_, congrArg _ hasks, rfl⟩⟩

private theorem map_decoded_eq_self {levels : List LevelAggregate} :
    levels.map LevelAggregate.decoded = levels ↔ ∀ level ∈ levels, 100 ∣ level.quantity := by
  have hlevel : ∀ level : LevelAggregate, level.decoded = level ↔ 100 ∣ level.quantity := by
    rintro ⟨price, quantity⟩
    simp [LevelAggregate.decoded, tdiv_mul_eq_self]
  have hmap := List.map_inj_left (f := LevelAggregate.decoded) (g := id) (l := levels)
  rw [List.map_id] at hmap
  simp only [hmap, id, hlevel]

/-- With any library that has the laws, no trade comes back as it was, and a snapshot does if and only if its time
fits 32 bits with a sign and its quantities are whole. -/
theorem codec_round_trip (raw : RawTrade) (t : Trade) (s : TopOrderBookLevelAggregates) (ht : t.WellTyped)
    (hs : s.WellTyped) :
    Trade.fromJson raw (t.toJson : J) =
        .ok { t with isTakerBuyer := !t.isTakerBuyer, createTimestamp := readTimestamp t.createTimestamp } ∧
      Trade.fromJson raw (t.toJson : J) ≠ .ok t ∧
      (TopOrderBookLevelAggregates.fromJson (s.toJson : J) = .ok s ↔
        (s.createTimestamp < 2147483648 ∨ 18446744071562067968 ≤ s.createTimestamp) ∧
          ∀ level ∈ s.bidLevelAggregates ++ s.askLevelAggregates, 100 ∣ level.quantity) := by
  refine ⟨decoded_trade raw ht, fun h => ?_, ?_⟩
  · rw [decoded_trade raw ht] at h
    have hside : (!t.isTakerBuyer) = t.isTakerBuyer := congrArg Trade.isTakerBuyer (Except.ok.inj h)
    cases hb : t.isTakerBuyer <;> rw [hb] at hside <;> cases hside
  · rw [decoded_snapshot hs, Except.ok.injEq, ← readTimestamp_eq_self hs.createTimestamp, List.forall_mem_append,
      ← map_decoded_eq_self, ← map_decoded_eq_self]
    obtain ⟨ticker, bids, asks, ts⟩ := s
    simp only [TopOrderBookLevelAggregates.mk.injEq, true_and]
    exact ⟨fun h => ⟨h.2.2, h.1, h.2.1⟩, fun h => ⟨h.2.1, h.2.2, h.1⟩⟩

end

/-- A trade of `ann` with `bob`: a share and a half at 100.50. -/
def sampleTrade (createTimestamp : Nat) : Trade :=
  ⟨"GME", 10050, 150, "00000000-0000-0000-0000-000000000000", "ann", "bob", 1, 2, true, createTimestamp⟩

/-- A snapshot with one bid at 100.50. -/
def sampleSnapshot (quantity : Int) (createTimestamp : Nat) : TopOrderBookLevelAggregates :=
  ⟨"GME", ⟨10050, quantity⟩ :: List.replicate 49 .default, List.replicate 50 .default, createTimestamp⟩

/-- At one second after the epoch: the trade changes its side, and a snapshot with a whole quantity comes back. -/
theorem codec_sample :
    Trade.fromJson Stamp.zero.memory ((sampleTrade 1000).toJson : Json) ≠ .ok (sampleTrade 1000) ∧
      TopOrderBookLevelAggregates.fromJson ((sampleSnapshot 200 1000).toJson : Json) =
        .ok (sampleSnapshot 200 1000) := by
  have hmade : (sampleTrade 1000).make Stamp.zero.memory = .ok (sampleTrade 1000) := by decide +kernel
  have ht : (sampleTrade 1000).WellTyped := ⟨⟨_, _, hmade⟩, by decide, by decide, by decide, by decide, by decide⟩
  have hempty : TopOrderBookLevelAggregates.make "GME" 1000 =
      .ok ⟨"GME", List.replicate 50 .default, List.replicate 50 .default, 1000⟩ := by decide +kernel
  have hs : (sampleSnapshot 200 1000).WellTyped :=
    ⟨⟨_, _, hempty, rfl⟩, by decide, by decide, by decide, by decide⟩
  obtain ⟨-, hside, hsnapshot⟩ := codec_round_trip (J := Json) Stamp.zero.memory _ _ ht hs
  exact ⟨hside, hsnapshot.2 ⟨by decide, by decide⟩⟩

/-- A day of the year 2023: a buyer comes back as a seller and at another time, and a snapshot with one share and a
half at another time and with one share. -/
theorem codec_changes_fields :
    Trade.fromJson Stamp.zero.memory ((sampleTrade 1700000000000).toJson : Json) =
        .ok { sampleTrade 1700000000000 with isTakerBuyer := false, createTimestamp := 18446744072902502400 } ∧
      TopOrderBookLevelAggregates.fromJson ((sampleSnapshot 150 1700000000000).toJson : Json) =
        .ok (sampleSnapshot 100 18446744072902502400) := by
  decide +kernel

end Elsa
