import Mathlib.Data.List.Basic
import Mathlib.Data.List.TakeWhile

/-!
# Texts in arrays with a terminator

A text without its own terminator is kept in an array of a fixed size as what stands before the first terminator
there.  `copy` writes the letters of a text and a terminator, which stands right behind the letters or some places
further on, and lists the places it writes.  In an array that held anything, or with a gap in one that held
terminators only, what is read back is the text up to its first terminator (`read_copy`); this is the whole text
and only places of the array were written if and only if the text holds no terminator and the last place written
is in the array (`copy_faithful_iff`).

The letters of such an array are bytes.  The bytes of a `String` up to the first zero are those of the `String` up
to its first zero (`bytes_upToNul`), because no other letter has a zero byte.
-/

namespace Base.CString

variable {α : Type} [DecidableEq α] (nul : α)

def strlen (text : List α) : Nat := (text.takeWhile (· ≠ nul)).length

/-- The text in an array; there is none without a terminator. -/
def read (array : List α) : Option (List α) := if nul ∈ array then some (array.takeWhile (· ≠ nul)) else none

/-- The places that were written, and the array after it. -/
structure Copy (α : Type) where
  touched : List Nat
  content : List α
deriving DecidableEq

/-- `strlen` letters are copied, and the terminator is written `gap` places behind them. -/
def copy (gap : Nat) (array text : List α) : Copy α :=
  let len := strlen nul text
  ⟨List.range len ++ [len + gap], (text.take len ++ array.drop len).set (len + gap) nul⟩

/-- Only places of the array were written, and the text is in it. -/
def Copy.Faithful (c : Copy α) (size : Nat) (text : List α) : Prop :=
  (∀ i ∈ c.touched, i < size) ∧ read nul c.content = some text

instance (c : Copy α) (size : Nat) (text : List α) : Decidable (c.Faithful nul size text) :=
  inferInstanceAs (Decidable (_ ∧ _))

variable {nul}

private theorem take_strlen (text : List α) : text.take (strlen nul text) = text.takeWhile (· ≠ nul) :=
  (List.prefix_iff_eq_take.1 (List.takeWhile_prefix _)).symm

private theorem notMem_takeWhile (text : List α) : nul ∉ text.takeWhile (· ≠ nul) := fun h => by
  simpa using List.mem_takeWhile_imp h

private theorem takeWhile_eq_self {text : List α} : text.takeWhile (· ≠ nul) = text ↔ nul ∉ text := by
  constructor
  · intro h
    exact h ▸ notMem_takeWhile text
  · intro h
    exact List.takeWhile_eq_self_iff.2 fun a ha => decide_eq_true (ne_of_mem_of_not_mem ha h)

theorem strlen_of_notMem {text : List α} (h : nul ∉ text) : strlen nul text = text.length := by
  rw [strlen, takeWhile_eq_self.2 h]

private theorem read_append_cons {text : List α} (h : nul ∉ text) (rest : List α) :
    read nul (text ++ nul :: rest) = some text := by
  have hself : (text ++ nul :: rest).takeWhile (· ≠ nul) = text ++ (nul :: rest).takeWhile (· ≠ nul) :=
    List.takeWhile_append_of_pos fun a ha => decide_eq_true (ne_of_mem_of_not_mem ha h)
  rw [read, if_pos (by simp), hself]
  simp

/-- What is read is the text up to its first terminator. -/
theorem read_copy {gap : Nat} {array text : List α} (harray : gap = 0 ∨ array = List.replicate array.length nul)
    (hlen : strlen nul text < array.length) :
    read nul (copy nul gap array text).content = some (text.takeWhile (· ≠ nul)) := by
  have hcontent : ∃ rest, (copy nul gap array text).content = text.takeWhile (· ≠ nul) ++ nul :: rest := by
    unfold copy
    dsimp only
    rw [take_strlen, List.set_append_right _ _ (by rw [strlen]; omega), strlen, Nat.add_sub_cancel_left]
    have hlt : (text.takeWhile (· ≠ nul)).length < array.length := hlen
    rcases harray with rfl | harray
    · cases hrest : array.drop (text.takeWhile (· ≠ nul)).length with
      | nil => exact absurd (List.drop_eq_nil_iff.1 hrest) (by omega)
      | cons a rest => exact ⟨rest, rfl⟩
    · rw [harray, List.drop_replicate, List.set_replicate_self, ← Nat.sub_add_cancel (Nat.sub_pos_of_lt hlt)]
      exact ⟨_, by rw [List.replicate_succ]⟩
  obtain ⟨rest, hrest⟩ := hcontent
  rw [hrest, read_append_cons (notMem_takeWhile text)]

private theorem touched_lt_iff {gap size : Nat} {array text : List α} :
    (∀ i ∈ (copy nul gap array text).touched, i < size) ↔ strlen nul text + gap < size := by
  simp only [copy, List.mem_append, List.mem_range, List.mem_singleton]
  constructor
  · exact fun h => h _ (.inr rfl)
  · rintro h i (hi | rfl) <;> omega

theorem copy_faithful_iff {gap : Nat} {array text : List α}
    (harray : gap = 0 ∨ array = List.replicate array.length nul) (hlen : strlen nul text < array.length) :
    (copy nul gap array text).Faithful nul array.length text ↔ nul ∉ text ∧ text.length + gap < array.length := by
  rw [Copy.Faithful, touched_lt_iff, read_copy harray hlen, Option.some.injEq, takeWhile_eq_self]
  constructor
  · rintro ⟨hlt, hnul⟩
    exact ⟨hnul, strlen_of_notMem hnul ▸ hlt⟩
  · rintro ⟨hnul, hlt⟩
    exact ⟨strlen_of_notMem hnul ▸ hlt, hnul⟩

/-! ### Bytes of strings -/

/-- The bytes of a text. -/
def bytes (text : String) : List UInt8 := text.toUTF8.data.toList

/-- The text of bytes that encode one. -/
def decode (bytes : List UInt8) : String := (String.fromUTF8? ⟨bytes.toArray⟩).getD ""

/-- What stands before the first zero. -/
def upToNul (text : String) : String := String.ofList (text.toList.takeWhile (· ≠ '\x00'))

/-- There is no zero in the text. -/
def NulFree (text : String) : Prop := '\x00' ∉ text.toList

instance (text : String) : Decidable (NulFree text) := inferInstanceAs (Decidable (¬ _))

theorem upToNul_of_nulFree {text : String} (h : NulFree text) : upToNul text = text := by
  rw [upToNul, takeWhile_eq_self.2 h, String.ofList_toList]

theorem upToNul_nulFree (text : String) : NulFree (upToNul text) := by
  rw [NulFree, upToNul, String.toList_ofList]
  exact notMem_takeWhile _

theorem length_bytes (text : String) : (bytes text).length = text.utf8ByteSize := rfl

theorem decode_bytes (text : String) : decode (bytes text) = text := by
  have hdecoded : String.fromUTF8? text.toUTF8 = some text := dif_pos text.isValidUTF8
  exact congrArg (Option.getD · "") hdecoded

private theorem bytes_eq_flatMap (text : String) : bytes text = text.toList.flatMap String.utf8EncodeChar := by
  have hencode : text.toUTF8 = text.toList.utf8Encode := by
    conv_lhs => rw [← String.ofList_toList (s := text)]
    exact String.toByteArray_ofList
  rw [bytes, hencode, List.utf8Encode]
  simp

/-- The only letter with a zero byte is the zero. -/
private theorem zero_mem_utf8EncodeChar {c : Char} : 0 ∈ String.utf8EncodeChar c ↔ c = '\x00' := by
  constructor
  · intro h
    have hbyte : ∀ n, 0 < n → n < 256 → (0 : UInt8) ≠ UInt8.ofNat n := by
      intro n hpos hlt heq
      have hnat := congrArg UInt8.toNat heq
      rw [UInt8.toNat_ofNat_of_lt' hlt] at hnat
      exact hpos.ne hnat
    unfold String.utf8EncodeChar at h
    dsimp only at h
    split at h
    · rw [List.mem_singleton] at h
      by_contra hne
      refine hbyte c.val.toNat (Nat.pos_of_ne_zero fun hzero => hne ?_) (by omega) h
      exact Char.ext (UInt32.toNat_inj.1 hzero)
    · -- the bytes of the longer codes are 128 at least
      exfalso
      split at h
      · simp only [List.mem_cons, List.not_mem_nil, or_false] at h
        rcases h with h | h <;> exact hbyte _ (by omega) (by omega) h
      · split at h
        · simp only [List.mem_cons, List.not_mem_nil, or_false] at h
          rcases h with h | h | h <;> exact hbyte _ (by omega) (by omega) h
        · simp only [List.mem_cons, List.not_mem_nil, or_false] at h
          rcases h with h | h | h | h <;> exact hbyte _ (by omega) (by omega) h
  · rintro rfl
    decide

/-- Cutting the bytes at the first zero cuts the text there. -/
theorem bytes_upToNul (text : String) : bytes (upToNul text) = (bytes text).takeWhile (· ≠ 0) := by
  rw [bytes_eq_flatMap, bytes_eq_flatMap, upToNul, String.toList_ofList]
  generalize text.toList = letters
  induction letters with
  | nil => rfl
  | cons c letters ih =>
    by_cases hc : c = '\x00'
    · subst hc
      rfl
    · have hletters : (c :: letters).takeWhile (· ≠ '\x00') = c :: letters.takeWhile (· ≠ '\x00') :=
        List.takeWhile_cons_of_pos (decide_eq_true hc)
      have hbytes : ∀ b ∈ String.utf8EncodeChar c, decide (b ≠ 0) = true := fun b hb =>
        decide_eq_true fun hzero => hc (zero_mem_utf8EncodeChar.1 (hzero ▸ hb))
      rw [hletters, List.flatMap_cons, List.flatMap_cons, ih, List.takeWhile_append_of_pos hbytes]

/-- A text without a zero has no zero byte. -/
theorem zero_notMem_bytes {text : String} (h : NulFree text) : 0 ∉ bytes text := by
  rw [← takeWhile_eq_self, ← bytes_upToNul, upToNul_of_nulFree h]

end Base.CString
