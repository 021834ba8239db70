import Elsa.Base.CString
import Elsa.Base.Steps
import Elsa.Core.Containers

/-!
# The records in shared memory

`Trade` and `TopOrderBookLevelAggregates` lie in shared memory and keep their texts in arrays of fixed sizes.  Both
constructors assert that a text is not empty and shorter than its array, copy it and write a terminator: that of
`Trade` right behind the text, that of the snapshot one place further on.  The length of a text is that of
`strlen`, so that a record holds what stands before the first zero byte (`Trade.make_of_fits`,
`TopOrderBookLevelAggregates.make_of_fits`).
-/

namespace Elsa

open Base CString

/-- The bytes of a `std::string`. -/
abbrev textBytes (text : String) : List UInt8 := CString.bytes text

/-- The assertion under which a text is copied to a `char` array of the given size. -/
def FitsField (text : String) (size : Nat) : Prop :=
  0 < strlen 0 (textBytes text) ∧ strlen 0 (textBytes text) < size

instance (text : String) (size : Nat) : Decidable (FitsField text size) := inferInstanceAs (Decidable (_ ∧ _))

/-- The assertion on a text, and its copy; `gap` is the distance of the terminator. -/
def copyText (gap : Nat) (array text : List UInt8) : Except Fault (Copy UInt8) := do
  require (0 < strlen 0 text ∧ strlen 0 text < array.length) .assertion
  return copy 0 gap array text

/-- The text in an array, as `std::string` reads it. -/
def fieldText (c : Copy UInt8) : String := decode ((read 0 c.content).getD [])

/-! ### `Trade` -/

structure Trade where
  ticker : String
  price : Int
  quantity : Int
  tradeId : String
  takerId : String
  makerId : String
  takerOrderId : Int
  makerOrderId : Int
  isTakerBuyer : Bool
  createTimestamp : Nat
deriving DecidableEq, Repr

/-- What the arrays of a `Trade` hold that are not initialised. -/
structure RawTrade where
  tradeId : List UInt8
  takerId : List UInt8
  makerId : List UInt8
  tradeId_length : tradeId.length = uuidLength
  takerId_length : takerId.length = maxUsernameLength
  makerId_length : makerId.length = maxUsernameLength

/-- The four arrays of a `Trade`. -/
structure TradeFields where
  ticker : Copy UInt8
  tradeId : Copy UInt8
  takerId : Copy UInt8
  makerId : Copy UInt8
deriving DecidableEq

/-- What the constructor of `Trade` does to its arrays. -/
def constructTrade (raw : RawTrade) (ticker tradeId takerId makerId : List UInt8) : Except Fault TradeFields := do
  let ticker ← copyText 0 (List.replicate maxTickerLength 0) ticker
  let tradeId ← copyText 0 raw.tradeId tradeId
  let takerId ← copyText 0 raw.takerId takerId
  let makerId ← copyText 0 raw.makerId makerId
  return ⟨ticker, tradeId, takerId, makerId⟩

/-- The constructor of `Trade` for the given fields. -/
def Trade.make (raw : RawTrade) (t : Trade) : Except Fault Trade := do
  let f ← constructTrade raw (textBytes t.ticker) (textBytes t.tradeId) (textBytes t.takerId) (textBytes t.makerId)
  return { t with
    ticker := fieldText f.ticker, tradeId := fieldText f.tradeId
    takerId := fieldText f.takerId, makerId := fieldText f.makerId }

/-! ### `TopOrderBookLevelAggregates` -/

structure LevelAggregate where
  price : Int
  quantity : Int
deriving DecidableEq, Repr

/-- `LevelAggregate{}`. -/
def LevelAggregate.default : LevelAggregate := ⟨0, 0⟩

structure TopOrderBookLevelAggregates where
  ticker : String
  bidLevelAggregates : List LevelAggregate
  askLevelAggregates : List LevelAggregate
  createTimestamp : Nat
deriving DecidableEq, Repr

/-- What the constructor of `TopOrderBookLevelAggregates` does to its array. -/
def constructSnapshot (ticker : List UInt8) : Except Fault (Copy UInt8) :=
  copyText 1 (List.replicate maxTickerLength 0) ticker

/-- The constructor of `TopOrderBookLevelAggregates`. -/
def TopOrderBookLevelAggregates.make (ticker : String) (createTimestamp : Nat) :
    Except Fault TopOrderBookLevelAggregates := do
  let array ← constructSnapshot (textBytes ticker)
  let empty := List.replicate orderBookAggregateLevels LevelAggregate.default
  return ⟨fieldText array, empty, empty, createTimestamp⟩

/-! ### What the records hold -/

theorem copyText_eq_ok {gap : Nat} {array text : List UInt8} {c : Copy UInt8} :
    copyText gap array text = .ok c ↔
      (0 < strlen 0 text ∧ strlen 0 text < array.length) ∧ c = copy 0 gap array text := by
  unfold copyText
  rw [bind_eq_ok]
  constructor
  · rintro ⟨_, hreq, hc⟩
    exact ⟨require_eq_ok.1 hreq, (Except.ok.inj hc).symm⟩
  · rintro ⟨hreq, rfl⟩
    exact ⟨(), require_eq_ok.2 hreq, rfl⟩

/-- The text in an array after it was copied there. -/
private theorem fieldText_copy {gap size : Nat} {array : List UInt8} {text : String} (hsize : array.length = size)
    (harray : gap = 0 ∨ array = List.replicate array.length 0) (h : FitsField text size) :
    fieldText (copy 0 gap array (textBytes text)) = upToNul text := by
  rw [fieldText, read_copy harray (hsize ▸ h.2), Option.getD_some, ← bytes_upToNul, decode_bytes]

private theorem copyText_of_fits {gap size : Nat} {array : List UInt8} {text : String} (hsize : array.length = size)
    (h : FitsField text size) :
    copyText gap array (textBytes text) = .ok (copy 0 gap array (textBytes text)) :=
  copyText_eq_ok.2 ⟨hsize ▸ h, rfl⟩

private theorem copyText_of_not_fits {gap size : Nat} {array : List UInt8} {text : String}
    (hsize : array.length = size) (h : ¬ FitsField text size) :
    copyText gap array (textBytes text) = .error .assertion := by
  subst hsize
  exact congrArg (· >>= fun _ => pure _) (require_of_not h Fault.assertion)

/-- The four texts of a trade fit their arrays. -/
structure Trade.Fits (t : Trade) : Prop where
  ticker : FitsField t.ticker maxTickerLength
  tradeId : FitsField t.tradeId uuidLength
  takerId : FitsField t.takerId maxUsernameLength
  makerId : FitsField t.makerId maxUsernameLength

/-- The trade with its texts as the arrays hold them. -/
def Trade.held (t : Trade) : Trade :=
  { t with
    ticker := upToNul t.ticker, tradeId := upToNul t.tradeId
    takerId := upToNul t.takerId, makerId := upToNul t.makerId }

private theorem length_zeros : (List.replicate maxTickerLength (0 : UInt8)).length = maxTickerLength :=
  List.length_replicate

theorem Trade.make_of_fits (raw : RawTrade) {t : Trade} (h : t.Fits) : t.make raw = .ok t.held := by
  unfold Trade.make constructTrade
  rw [copyText_of_fits length_zeros h.ticker, copyText_of_fits raw.tradeId_length h.tradeId,
    copyText_of_fits raw.takerId_length h.takerId, copyText_of_fits raw.makerId_length h.makerId, Trade.held,
    ← fieldText_copy length_zeros (.inl rfl) h.ticker, ← fieldText_copy raw.tradeId_length (.inl rfl) h.tradeId,
    ← fieldText_copy raw.takerId_length (.inl rfl) h.takerId,
    ← fieldText_copy raw.makerId_length (.inl rfl) h.makerId]
  rfl

theorem Trade.make_of_not_fits (raw : RawTrade) {t : Trade} (h : ¬ t.Fits) : t.make raw = .error .assertion := by
  unfold Trade.make constructTrade
  by_cases hticker : FitsField t.ticker maxTickerLength
  · rw [copyText_of_fits length_zeros hticker]
    by_cases htrade : FitsField t.tradeId uuidLength
    · rw [copyText_of_fits raw.tradeId_length htrade]
      by_cases htaker : FitsField t.takerId maxUsernameLength
      · rw [copyText_of_fits raw.takerId_length htaker]
        by_cases hmaker : FitsField t.makerId maxUsernameLength
        · exact absurd ⟨hticker, htrade, htaker, hmaker⟩ h
        · rw [copyText_of_not_fits raw.makerId_length hmaker]
          rfl
      · rw [copyText_of_not_fits raw.takerId_length htaker]
        rfl
    · rw [copyText_of_not_fits raw.tradeId_length htrade]
      rfl
  · rw [copyText_of_not_fits length_zeros hticker]
    rfl

/-- A text fits if and only if what stands before its first zero byte fits. -/
private theorem fitsField_upToNul {text : String} {size : Nat} :
    FitsField (upToNul text) size ↔ FitsField text size := by
  have hlength : strlen 0 (textBytes (upToNul text)) = strlen 0 (textBytes text) := by
    rw [strlen_of_notMem (zero_notMem_bytes (upToNul_nulFree text)), textBytes, bytes_upToNul]
    rfl
  rw [FitsField, hlength, FitsField]

/-- What a constructor has made is made again from its own fields. -/
theorem Trade.make_of_made {raw : RawTrade} {fields t : Trade} (h : fields.make raw = .ok t) :
    t.Fits ∧ t.held = t := by
  by_cases hfits : fields.Fits
  · rw [make_of_fits raw hfits] at h
    obtain rfl := Except.ok.inj h
    refine ⟨⟨?_, ?_, ?_, ?_⟩, ?_⟩
    · exact fitsField_upToNul.2 hfits.ticker
    · exact fitsField_upToNul.2 hfits.tradeId
    · exact fitsField_upToNul.2 hfits.takerId
    · exact fitsField_upToNul.2 hfits.makerId
    · simp only [held, upToNul_of_nulFree (upToNul_nulFree _)]
  · rw [make_of_not_fits raw hfits] at h
    cases h

/-- The snapshot that the constructor leaves. -/
theorem TopOrderBookLevelAggregates.make_of_fits {ticker : String} (h : FitsField ticker maxTickerLength)
    (createTimestamp : Nat) :
    TopOrderBookLevelAggregates.make ticker createTimestamp =
      .ok ⟨upToNul ticker, List.replicate orderBookAggregateLevels .default,
        List.replicate orderBookAggregateLevels .default, createTimestamp⟩ := by
  have hzeros : List.replicate maxTickerLength (0 : UInt8) =
      List.replicate (List.replicate maxTickerLength (0 : UInt8)).length 0 := by
    rw [length_zeros]
  unfold make constructSnapshot
  rw [copyText_of_fits length_zeros h, ← fieldText_copy length_zeros (.inr hzeros) h]
  rfl

theorem TopOrderBookLevelAggregates.make_of_not_fits {ticker : String} (h : ¬ FitsField ticker maxTickerLength)
    (createTimestamp : Nat) : TopOrderBookLevelAggregates.make ticker createTimestamp = .error .assertion := by
  unfold make constructSnapshot
  rw [copyText_of_not_fits length_zeros h]
  rfl

/-- A ticker in a snapshot fits its array and holds no zero byte. -/
theorem TopOrderBookLevelAggregates.ticker_of_made {text : String} {createTimestamp : Nat}
    {s : TopOrderBookLevelAggregates} (h : make text createTimestamp = .ok s) :
    FitsField s.ticker maxTickerLength ∧ NulFree s.ticker := by
  by_cases hfits : FitsField text maxTickerLength
  · rw [make_of_fits hfits] at h
    obtain rfl := Except.ok.inj h
    exact ⟨fitsField_upToNul.2 hfits, upToNul_nulFree text⟩
  · rw [make_of_not_fits hfits] at h
    cases h

end Elsa
