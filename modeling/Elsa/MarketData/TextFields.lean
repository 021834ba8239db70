import Elsa.Backend.Users
import Elsa.Core.SharedRecords

/-!
# The texts in the records of the market data

The constructors of `Trade` and of `TopOrderBookLevelAggregates` assert that a text is not empty and shorter than its
array, and the second writes its terminator one place further on than the first.  The backend and the database ask for
neither.

All texts are kept, and only places of the arrays are written, if and only if the symbol has one to three bytes, both
names have one to fifteen, and none of them holds a zero byte (`fields_hold_iff`).
-/

namespace Elsa

open Base CString

/-! ### The id of a trade -/

/-- `HEX_DIGITS`. -/
def hexDigits : List UInt8 := textBytes "0123456789abcdef"

/-- `format_uuid_canonical`, without the terminator. -/
def formatUuidCanonical (data : Fin 16 → UInt8) : List UInt8 :=
  (List.finRange 16).flatMap fun i =>
    (if i = 4 ∨ i = 6 ∨ i = 8 ∨ i = 10 then textBytes "-" else []) ++
      [hexDigits.getD ((data i >>> 4) &&& 15).toNat 0, hexDigits.getD (data i &&& 15).toNat 0]

/-! ### What is claimed of the records -/

/-- The constructors go through, write only places of their arrays, and the texts are read back. -/
def FieldsHold (raw : RawTrade) (id : Fin 16 → UInt8) (symbol takerId makerId : String) : Prop :=
  (∃ f, constructTrade raw (textBytes symbol) (formatUuidCanonical id) (textBytes takerId) (textBytes makerId) =
    .ok f ∧ f.ticker.Faithful 0 maxTickerLength (textBytes symbol) ∧
    f.tradeId.Faithful 0 uuidLength (formatUuidCanonical id) ∧
    f.takerId.Faithful 0 maxUsernameLength (textBytes takerId) ∧ f.makerId.Faithful 0 maxUsernameLength
    (textBytes makerId)) ∧
  ∃ c, constructSnapshot (textBytes symbol) = .ok c ∧ c.Faithful 0 maxTickerLength (textBytes symbol)

/-- One to `max` bytes, none of them zero. -/
def HasBytes (max : Nat) (text : String) :
    Prop := 0 < text.utf8ByteSize ∧ text.utf8ByteSize ≤ max ∧ 0 ∉ textBytes text

instance (max : Nat) (text : String) : Decidable (HasBytes max text) := inferInstanceAs (Decidable (_ ∧ _ ∧ _))

/-! ### One text -/

/-- A text is kept if and only if it is not empty, holds no zero byte, and its terminator has a place in the array. -/
private theorem copyText_faithful_iff {gap : Nat} {array text : List UInt8}
    (harray : gap = 0 ∨ array = List.replicate array.length 0) :
    (∃ c, copyText gap array text = .ok c ∧ c.Faithful 0 array.length text) ↔
      0 < text.length ∧ text.length + gap < array.length ∧ 0 ∉ text := by
  constructor
  · rintro ⟨c, hc, hfaithful⟩
    obtain ⟨⟨hpos, hlt⟩, rfl⟩ := copyText_eq_ok.1 hc
    obtain ⟨hnul, hfits⟩ := (copy_faithful_iff harray hlt).1 hfaithful
    exact ⟨strlen_of_notMem hnul ▸ hpos, hfits, hnul⟩
  · rintro ⟨hpos, hfits, hnul⟩
    have hlen := strlen_of_notMem hnul
    have hlt : strlen 0 text < array.length := by omega
    exact ⟨_, copyText_eq_ok.2 ⟨⟨by omega, hlt⟩, rfl⟩, (copy_faithful_iff harray hlt).2 ⟨hnul, hfits⟩⟩

/-- An array of which the size is known. -/
private theorem copyText_hasBytes_iff (gap : Nat) {size : Nat} {array : List UInt8} (hsize : array.length = size)
    (harray : gap = 0 ∨ array = List.replicate array.length 0) (text : String) :
    (∃ c, copyText gap array (textBytes text) = .ok c ∧ c.Faithful 0 size (textBytes text)) ↔
    HasBytes (size - gap - 1) text := by
  subst hsize
  rw [copyText_faithful_iff harray, HasBytes, length_bytes]
  exact ⟨fun h => ⟨h.1, by omega, h.2.2⟩, fun h => ⟨h.1, by omega, h.2.2⟩⟩

/-! ### The id -/

private theorem length_formatUuidCanonical (data : Fin 16 → UInt8) : (formatUuidCanonical data).length = 36 := rfl

private theorem hexDigit_ne_zero (x : UInt8) : hexDigits.getD (x &&& 15).toNat 0 ≠ 0 := by
  have htable : ∀ n < 16, hexDigits.getD n 0 ≠ 0 := by decide
  refine htable _ ?_
  rw [UInt8.toNat_and]
  exact Nat.lt_of_le_of_lt Nat.and_le_right (by decide)

private theorem zero_notMem_formatUuidCanonical (data : Fin 16 → UInt8) : 0 ∉ formatUuidCanonical data := by
  intro h
  obtain ⟨i, -, h⟩ := List.mem_flatMap.1 h
  rcases List.mem_append.1 h with h | h
  · split at h
    · exact absurd h (by decide)
    · cases h
  · simp only [List.mem_cons, List.not_mem_nil, or_false] at h
    rcases h with h | h
    · exact hexDigit_ne_zero _ h.symm
    · exact hexDigit_ne_zero _ h.symm

/-! ### The records -/

private theorem constructTrade_eq_ok {raw : RawTrade} {ticker tradeId takerId makerId : List UInt8}
    {f : TradeFields} :
    constructTrade raw ticker tradeId takerId makerId = .ok f ↔
      copyText 0 (List.replicate maxTickerLength 0) ticker = .ok f.ticker ∧
      copyText 0 raw.tradeId tradeId = .ok f.tradeId ∧
        copyText 0 raw.takerId takerId = .ok f.takerId ∧ copyText 0 raw.makerId makerId = .ok f.makerId := by
  unfold constructTrade
  simp only [bind_eq_ok]
  constructor
  · rintro ⟨_, hticker, _, htrade, _, htaker, _, hmaker, h⟩
    obtain rfl := Except.ok.inj h
    exact ⟨hticker, htrade, htaker, hmaker⟩
  · rintro ⟨hticker, htrade, htaker, hmaker⟩
    exact ⟨_, hticker, _, htrade, _, htaker, _, hmaker, rfl⟩

/-- The id of a trade is always kept. -/
private theorem tradeId_kept (raw : RawTrade) (id : Fin 16 → UInt8) :
    ∃ c, copyText 0 raw.tradeId (formatUuidCanonical id) = .ok c ∧
      c.Faithful 0 uuidLength (formatUuidCanonical id) := by
  rw [← raw.tradeId_length, copyText_faithful_iff (.inl rfl), length_formatUuidCanonical, raw.tradeId_length]
  exact ⟨by decide, by decide, zero_notMem_formatUuidCanonical id⟩

/-- The texts of the records are kept if and only if the symbol has one to three bytes and the names have one to
fifteen, none of them zero. -/
theorem fields_hold_iff (raw : RawTrade) (id : Fin 16 → UInt8) (symbol takerId makerId : String) :
    FieldsHold raw id symbol takerId makerId ↔ HasBytes 3 symbol ∧ HasBytes 15 takerId ∧ HasBytes 15 makerId := by
  have hticker := copyText_hasBytes_iff 0 (List.length_replicate (n := maxTickerLength) (a := 0)) (.inl rfl) symbol
  have hsnapshot := copyText_hasBytes_iff 1 (List.length_replicate (n := maxTickerLength) (a := 0))
    (.inr (by rw [List.length_replicate])) symbol
  have htaker := copyText_hasBytes_iff 0 raw.takerId_length (.inl rfl) takerId
  have hmaker := copyText_hasBytes_iff 0 raw.makerId_length (.inl rfl) makerId
  unfold FieldsHold
  simp only [constructTrade_eq_ok]
  constructor
  · rintro ⟨⟨f, ⟨_, _, htaker', hmaker'⟩, _, _, htakerF, hmakerF⟩, hsnapshot'⟩
    exact ⟨hsnapshot.1 hsnapshot', htaker.1 ⟨_, htaker', htakerF⟩, hmaker.1 ⟨_, hmaker', hmakerF⟩⟩
  · rintro ⟨hsymbol, htaker', hmaker'⟩
    obtain ⟨c1, h1, f1⟩ := hticker.2 ⟨hsymbol.1, hsymbol.2.1.trans (by decide), hsymbol.2.2⟩
    obtain ⟨c2, h2, f2⟩ := tradeId_kept raw id
    obtain ⟨c3, h3, f3⟩ := htaker.2 htaker'
    obtain ⟨c4, h4, f4⟩ := hmaker.2 hmaker'
    exact ⟨⟨⟨c1, c2, c3, c4⟩, ⟨h1, h2, h3, h4⟩, f1, f2, f3, f4⟩, hsnapshot.2 hsymbol⟩

/-! ### Sample names -/

/-- Memory that was all ones. -/
def sampleRaw : RawTrade where
  tradeId := List.replicate 37 255
  takerId := List.replicate 16 255
  makerId := List.replicate 16 255
  tradeId_length := by decide
  takerId_length := by decide
  makerId_length := by decide

/-- The symbol `GME` and two short names are kept. -/
theorem fields_hold_sample : FieldsHold sampleRaw (fun _ => 127) "GME" "ann" "bob" :=
  (fields_hold_iff sampleRaw (fun _ => 127) "GME" "ann" "bob").2 ⟨by decide, by decide, by decide⟩

open Backend in
/-- A server is created for the symbols `AAPL` and `GOOGL`, and a user of 16 letters signs up.  The snapshot of
`AAPL` writes behind its array, and the constructors stop at `GOOGL` and at the user. -/
theorem admitted_names_do_not_fit :
    (∃ w', handleCreateServer (calmEnv fun _ _ => none) .machine
      (sampleRequest ["AAPL", "GOOGL"] ["ann"] 0) sampleWorld =
      (.ok ⟨none, 1, "alpha", 1, "", 100000, ["AAPL", "GOOGL"], ["ann"]⟩, w')) ∧
    (∃ w', handleSignup (calmEnv fun _ _ => none) [("user_name", "bartholomew_long"), ("password", "x")] sampleWorld =
      (.ok ⟨true, ""⟩, w')) ∧
    constructSnapshot (textBytes "AAPL") = .ok ⟨[0, 1, 2, 3, 5], [65, 65, 80, 76, 0]⟩ ∧
    constructSnapshot (textBytes "GOOGL") = .error .assertion ∧
    constructTrade sampleRaw (textBytes "GME") (formatUuidCanonical fun _ => 127) (textBytes "ann")
      (textBytes "bartholomew_long") = .error .assertion ∧
    ¬ FieldsHold sampleRaw (fun _ => 127) "AAPL" "ann" "bob" := by
  have hserver : (sampleRun (fun _ _ => none) (sampleRequest ["AAPL", "GOOGL"] ["ann"] 0)).1 =
      .ok ⟨none, 1, "alpha", 1, "", 100000, ["AAPL", "GOOGL"], ["ann"]⟩ := by
    decide +kernel
  have hsignup : ∃ w', handleSignup (calmEnv fun _ _ => none)
      [("user_name", "bartholomew_long"), ("password", "x")] sampleWorld = (.ok ⟨true, ""⟩, w') ∧ _ :=
      handleSignup_of_free rfl rfl rfl (by decide) (by decide)
  have hsnapshot : constructSnapshot (textBytes "AAPL") = .ok ⟨[0, 1, 2, 3, 5], [65, 65, 80, 76, 0]⟩ := by
    decide +kernel
  refine ⟨⟨_, eq_of_fst hserver⟩, hsignup.imp fun _ h => h.1, hsnapshot, by decide +kernel, by decide +kernel, ?_⟩
  rintro ⟨-, c, hc, hfaithful⟩
  rw [hsnapshot] at hc
  cases hc
  exact absurd hfaithful.1 (by decide)

end Elsa
