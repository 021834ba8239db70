import Mathlib.Algebra.Order.Ring.Rat

/-!
# Messages as the trading page reads them

The page gets trades from two places, as messages of the market data connection and in the answer to a request for
the history, and reads both the same way: a field may have one of several names, its value is converted by `Number`,
and the unit of a timestamp is guessed from its size.  Numbers are exact here; only what is no finite number is kept
apart.
-/

namespace Elsa.Frontend

/-- A number of JavaScript. -/
inductive Number
  | finite (x : ℚ)
  | infinite (negative : Bool)
  | nan
deriving DecidableEq

/-- `Number.isFinite`, with the number. -/
def Number.finite? : Number → Option ℚ
  | .finite x => some x
  | _ => none

/-- What `JSON.parse` returns. -/
inductive Value
  | null
  | bool (b : Bool)
  | number (x : Number)
  | string (s : String)
  | array (values : List Value)
  | object (fields : List (String × Value))

namespace Value

/-- `v.name`; nothing is `undefined`. -/
def field (v : Value) (name : String) : Option Value :=
  match v with
  | .object fields => fields.lookup name
  | _ => none

def isNull : Value → Bool
  | .null => true
  | _ => false

def isTruthy : Option Value → Bool
  | none | some .null => false
  | some (.bool b) => b
  | some (.number x) => x ≠ .finite 0 ∧ x ≠ .nan
  | some (.string s) => s ≠ ""
  | some _ => true

/-- Equality of the members of a `Set`.  Arrays and objects of different messages are different. -/
def sameValueZero : Value → Value → Bool
  | .null, .null => true
  | .bool a, .bool b => a = b
  | .number x, .number y => x = y
  | .string s, .string t => s = t
  | _, _ => false

end Value

/-- `a ?? b`. -/
def coalesce (a b : Option Value) : Option Value :=
  match a with
  | none | some .null => b
  | some v => some v

/-- The functions of the JavaScript runtime that work on texts. -/
structure Runtime where
  toUpperCase : String → String
  toLowerCase : String → String
  localeCompare : String → String → Int
  /-- `Number` of a text -/
  parse : String → Number
  /-- `String` of a number -/
  print : Number → String
  /-- `String` of an array or an object -/
  printObject : Value → String

namespace Runtime

variable (js : Runtime)

def toText : Value → String
  | .null => "null"
  | .bool b => if b then "true" else "false"
  | .number x => js.print x
  | .string s => s
  | v => js.printObject v

def toNumber : Option Value → Number
  | none => .nan
  | some .null => .finite 0
  | some (.bool b) => .finite (if b then 1 else 0)
  | some (.number x) => x
  | some (.string s) => js.parse s
  | some v => js.parse (js.printObject v)

def normalizeTimestampMs (rawTs : Option Value) : Option Int :=
  match js.toNumber rawTs with
  | .finite ts =>
    if ts ≤ 0 then none
    else if 100000000000000 ≤ ts then some (ts / 1000).floor
    else if ts ≤ 100000000000 then some (ts * 1000).floor
    else some ts.floor
  | _ => none

/-- A number of milliseconds that is positive is a timestamp, perhaps of another time. -/
theorem normalizeTimestampMs_isSome {ts : Int} (h : 0 < ts) :
    (js.normalizeTimestampMs (some (.number (.finite ts)))).isSome = true := by
  have hpos : ¬ (ts : ℚ) ≤ 0 := not_le.2 (Rat.intCast_pos.2 h)
  simp only [normalizeTimestampMs, toNumber, if_neg hpos]
  split
  · rfl
  split <;> rfl

end Runtime

/-- A trade that can be charted. -/
structure ReceivedTrade where
  tradeId : String
  price : ℚ
  quantity : ℚ
  tsMs : Int
deriving DecidableEq

namespace Runtime

variable (js : Runtime)

/-- The trade of a message or of an entry of the history, if its numbers are finite and it has a timestamp. -/
def readTrade (t : Value) : Option ReceivedTrade := do
  let price ← (js.toNumber (coalesce (t.field "price") (t.field "px"))).finite?
  let quantity ← (js.toNumber (coalesce (t.field "quantity")
    (coalesce (t.field "qty") (some (.number (.finite 0)))))).finite?
  let tsMs ← js.normalizeTimestampMs (coalesce (t.field "create_timestamp") (coalesce (t.field "timestamp_ms")
    (coalesce (t.field "ts_ms") (coalesce (t.field "timestamp") (t.field "ts")))))
  let tradeId := ((coalesce (t.field "trade_id") (some (.string ""))).map js.toText).getD ""
  some ⟨tradeId, price, quantity, tsMs⟩

end Runtime

/-- The fields of a trade, as the market data service and the history give them: the time is in milliseconds and
between 1973 and 5138, so that its unit is guessed right. -/
structure Value.Describes (v : Value) (ticker : String) (t : ReceivedTrade) : Prop where
  ticker : v.field "ticker" = some (.string ticker)
  trade_id : v.field "trade_id" = some (.string t.tradeId)
  price : v.field "price" = some (.number (.finite t.price))
  quantity : v.field "quantity" = some (.number (.finite t.quantity))
  create_timestamp : v.field "create_timestamp" = some (.number (.finite t.tsMs))
  not_seconds : 100000000000 < t.tsMs
  not_micros : t.tsMs < 100000000000000
  no_book : v.field "bids" = none ∧ v.field "bid_level_aggregates" = none

namespace Runtime

variable (js : Runtime)

private theorem normalizeTimestampMs_of_millis {ts : Int} (h : 100000000000 < ts) (h' : ts < 100000000000000) :
    js.normalizeTimestampMs (some (.number (.finite ts))) = some ts := by
  have hlow : ¬ (ts : ℚ) ≤ 100000000000 := not_le.2 (by exact_mod_cast h)
  have hhigh : ¬ (100000000000000 : ℚ) ≤ ts := not_le.2 (by exact_mod_cast h')
  have hpos : ¬ (ts : ℚ) ≤ 0 := not_le.2 (Rat.intCast_pos.2 (by omega))
  simp only [normalizeTimestampMs, toNumber, if_neg hpos, if_neg hhigh, if_neg hlow]
  exact congrArg some (Rat.floor_intCast ts)

/-- Such a trade is read as it is. -/
theorem readTrade_of_describes {v : Value} {ticker : String} {t : ReceivedTrade} (h : v.Describes ticker t) :
    js.readTrade v = some t := by
  unfold readTrade
  rw [h.price, h.quantity, h.create_timestamp, h.trade_id]
  simp only [coalesce, toNumber, Number.finite?, Option.bind_eq_bind, Option.bind_some,
    js.normalizeTimestampMs_of_millis h.not_seconds h.not_micros]
  rfl

end Runtime

/-! ### The order book of a snapshot -/

structure BookLevel where
  price : ℚ
  quantity : ℚ

namespace Runtime

variable (js : Runtime)

def normalizeBookLevels (levels : Option Value) : List BookLevel :=
  match levels with
  | some (.array levels) => levels.filterMap fun level => do
    let price ← (js.toNumber (coalesce (level.field "price") (level.field "px"))).finite?
    let quantity ← (js.toNumber (coalesce (level.field "quantity")
      (coalesce (level.field "qty") (level.field "size")))).finite?
    if 0 < price ∧ 0 < quantity then some ⟨price, quantity⟩ else none
  | _ => []

end Runtime

end Elsa.Frontend
