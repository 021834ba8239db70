import Mathlib.Init

/-!
# Messages on the wire

A format in the manner of protocol buffers.  A message is a list of records, each with the number of a field and a
payload: a number in groups of seven bits, or a string of bytes with its length in front.  A field that is not set
has no record; if a field has several records the last one counts, and records with other numbers are skipped.

A `Kind` is a type of fields, a `Message` a type of messages.  Both carry the proof that reading gives back what was
written. A message is put together field by field (`Fields.field`), and fields with different numbers can always be
read back (`Message.decode_encode`).  Limits on the length of numbers and messages are not part of the format here,
and payloads of fixed width are not either.
-/

namespace Base

/-- A way to write values as bytes and to read them back. -/
structure Codec (α : Type) where
  serializeAsString : α → List UInt8
  parseFromString : List UInt8 → Option α
  parse_serialize : ∀ x, parseFromString (serializeAsString x) = some x

namespace Wire

/-! ### Numbers -/

/-- A number in groups of seven bits, the lowest ones first; the top bit of a byte says that more follow. -/
def encodeVarint (n : Nat) : List UInt8 :=
  if n < 128 then [UInt8.ofNat n] else UInt8.ofNat (n % 128 + 128) :: encodeVarint (n / 128)

def decodeVarint : List UInt8 → Option (Nat × List UInt8)
  | [] => none
  | b :: bs =>
    if b.toNat < 128 then some (b.toNat, bs)
    else (decodeVarint bs).map fun r => (b.toNat - 128 + 128 * r.1, r.2)

private theorem decodeVarint_encodeVarint (n : Nat) (rest : List UInt8) :
    decodeVarint (encodeVarint n ++ rest) = some (n, rest) := by
  induction n using Nat.strongRecOn with
  | ind n ih =>
    rw [encodeVarint]
    split
    · next hlt =>
      have hn : (UInt8.ofNat n).toNat = n := UInt8.toNat_ofNat_of_lt' (by show n < 256; omega)
      rw [List.singleton_append, decodeVarint, hn, if_pos hlt]
    · next hge =>
      have hb : (UInt8.ofNat (n % 128 + 128)).toNat = n % 128 + 128 :=
        UInt8.toNat_ofNat_of_lt' (by show n % 128 + 128 < 256; omega)
      rw [List.cons_append, decodeVarint, hb, if_neg (by omega), ih (n / 128) (by omega), Option.map_some]
      have hn : n % 128 + 128 - 128 + 128 * (n / 128) = n := by omega
      rw [hn]

private theorem encodeVarint_ne_nil (n : Nat) : encodeVarint n ≠ [] := by
  rw [encodeVarint]
  split <;> exact List.cons_ne_nil _ _

/-! ### Records -/

inductive Payload
  | varint (n : Nat)
  | bytes (bs : List UInt8)
deriving DecidableEq, Repr

structure Record where
  number : Nat
  payload : Payload
deriving DecidableEq, Repr

/-- The tag holds the number of the field and the type of the payload: 0 for a number, 2 for bytes. -/
def Record.encode (r : Record) : List UInt8 :=
  match r.payload with
  | .varint n => encodeVarint (8 * r.number) ++ encodeVarint n
  | .bytes bs => encodeVarint (8 * r.number + 2) ++ (encodeVarint bs.length ++ bs)

def decodeRecord (data : List UInt8) : Option (Record × List UInt8) :=
  (decodeVarint data).bind fun tag =>
    (decodeVarint tag.2).bind fun n =>
      if tag.1 % 8 = 0 then some (⟨tag.1 / 8, .varint n.1⟩, n.2)
      else if tag.1 % 8 = 2 ∧ n.1 ≤ n.2.length then some (⟨tag.1 / 8, .bytes (n.2.take n.1)⟩, n.2.drop n.1)
      else none

private theorem decodeRecord_encode (r : Record) (rest : List UInt8) :
    decodeRecord (r.encode ++ rest) = some (r, rest) := by
  obtain ⟨number, payload⟩ := r
  unfold decodeRecord
  cases payload with
  | varint n =>
    simp only [Record.encode, List.append_assoc, decodeVarint_encodeVarint, Option.bind_some]
    rw [if_pos (by omega), Nat.mul_div_cancel_left number (by decide)]
  | bytes bs =>
    simp only [Record.encode, List.append_assoc, decodeVarint_encodeVarint, Option.bind_some]
    rw [if_neg (by omega), if_pos ⟨by omega, by simp⟩, List.take_left, List.drop_left]
    have hnumber : (8 * number + 2) / 8 = number := by omega
    rw [hnumber]

private theorem Record.encode_ne_nil (r : Record) : r.encode ≠ [] := by
  unfold Record.encode
  split <;> exact List.append_ne_nil_of_left_ne_nil (encodeVarint_ne_nil _) _

def encodeRecords : List Record → List UInt8
  | [] => []
  | r :: rs => r.encode ++ encodeRecords rs

/-- Records one after the other; each takes at least one byte, so the length of the data is enough fuel. -/
def decodeRecords : Nat → List UInt8 → Option (List Record)
  | _, [] => some []
  | 0, _ :: _ => none
  | fuel + 1, data => (decodeRecord data).bind fun r => (decodeRecords fuel r.2).map (r.1 :: ·)

theorem decodeRecords_encodeRecords {rs : List Record} {fuel : Nat} (h : (encodeRecords rs).length ≤ fuel) :
    decodeRecords fuel (encodeRecords rs) = some rs := by
  induction rs generalizing fuel with
  | nil => cases fuel <;> rfl
  | cons r rs ih =>
    rw [encodeRecords] at h ⊢
    obtain ⟨b, bs, hr⟩ := List.exists_cons_of_ne_nil r.encode_ne_nil
    rw [List.length_append, hr, List.length_cons] at h
    obtain ⟨fuel, rfl⟩ : ∃ fuel', fuel = fuel' + 1 := ⟨fuel - 1, by omega⟩
    have hstep : decodeRecords (fuel + 1) (r.encode ++ encodeRecords rs) =
        (decodeRecord (r.encode ++ encodeRecords rs)).bind fun p => (decodeRecords fuel p.2).map (p.1 :: ·) := by
      rw [hr]
      rfl
    rw [hstep, decodeRecord_encode, Option.bind_some, ih (by omega), Option.map_some]

/-- The payload of a field: that of its last record. -/
def lookup (n : Nat) : List Record → Option Payload
  | [] => none
  | r :: rs => (lookup n rs).or (if r.number = n then some r.payload else none)

private theorem lookup_eq_none {n : Nat} {rs : List Record} (h : ∀ r ∈ rs, r.number ≠ n) : lookup n rs = none := by
  induction rs with
  | nil => rfl
  | cons r rs ih =>
    rw [lookup, ih fun r' hr' => h r' (List.mem_cons_of_mem _ hr'), if_neg (h r List.mem_cons_self)]
    rfl

theorem lookup_append (n : Nat) (rs rs' : List Record) : lookup n (rs ++ rs') = (lookup n rs').or (lookup n rs) := by
  induction rs with
  | nil => exact Option.or_none.symm
  | cons r rs ih => rw [List.cons_append, lookup, ih, lookup, Option.or_assoc]

/-! ### Types of fields -/

structure Kind (α : Type) where
  encode : α → Payload
  decode : Payload → Option α
  decode_encode : ∀ x, decode (encode x) = some x

namespace Kind

/-- Negative numbers are extended to 64 bits. -/
def int32 : Kind Int32 where
  encode x := .varint (x.toInt % 18446744073709551616).toNat
  decode
    | .varint n => some (Int32.ofInt n)
    | .bytes _ => none
  decode_encode x := by
    have h0 : 0 ≤ x.toInt % 18446744073709551616 := Int.emod_nonneg _ (by decide)
    rw [Option.some.injEq, Int.toNat_of_nonneg h0, Int32.ofInt_eq_iff_bmod_eq_toInt]
    have h1 := x.le_toInt
    have h2 := x.toInt_lt
    rw [Int.bmod_def]
    split <;> omega

def bool : Kind Bool where
  encode b := .varint b.toNat
  decode
    | .varint n => some (n != 0)
    | .bytes _ => none
  decode_encode b := by cases b <;> rfl

/-- Text in UTF-8. -/
def string : Kind String where
  encode s := .bytes s.toUTF8.data.toList
  decode
    | .varint _ => none
    | .bytes bs => String.fromUTF8? bs.toByteArray
  decode_encode s := by
    have hbytes : s.toUTF8.data.toList.toByteArray = s.toByteArray := by
      apply ByteArray.ext
      rw [List.data_toByteArray, Array.toArray_toList]
      rfl
    simp only [hbytes, String.fromUTF8?]
    rw [dif_pos s.isValidUTF8]
    rfl

/-- An enumeration, written as the number of its value; the values are listed in the order of their numbers, and
another number is read as `unknown`. -/
def enum {α : Type} [DecidableEq α] (unknown : α) (values : List α) (h : ∀ x, x ∈ values) : Kind α where
  encode x := .varint (values.idxOf x)
  decode
    | .varint n => some (values[n]?.getD unknown)
    | .bytes _ => none
  decode_encode x := by
    have hlt : values.idxOf x < values.length := List.idxOf_lt_length_of_mem (h x)
    show some (values[values.idxOf x]?.getD unknown) = some x
    rw [List.getElem?_eq_getElem hlt, Option.getD_some, List.getElem_idxOf hlt]

end Kind

/-- The record of a field, if it is set. -/
def field {α : Type} (n : Nat) (k : Kind α) (x : Option α) : List Record := x.toList.map fun v => ⟨n, k.encode v⟩

/-- The value of a field, if it is set. -/
def get {α : Type} (n : Nat) (k : Kind α) (rs : List Record) : Option (Option α) :=
  match lookup n rs with
  | none => some none
  | some p => (k.decode p).map some

private theorem get_eq {α : Type} {n : Nat} {k : Kind α} {rs : List Record} {x : Option α}
    (h : lookup n rs = x.map k.encode) : get n k rs = some x := by
  unfold get
  rw [h]
  cases x with
  | none => rfl
  | some v => exact congrArg (Option.map some) (k.decode_encode v)

private theorem lookup_field {α : Type} (n m : Nat) (k : Kind α) (x : Option α) :
    lookup n (field m k x) = if m = n then x.map k.encode else none := by
  cases x with
  | none =>
    rw [Option.map_none, ite_self]
    rfl
  | some v => exact Option.none_or

/-! ### Types of messages -/

/-- Some fields of a message of type `σ`, and what is made of their values: how they are written and how they are
read. Reading depends on the payloads of these fields only. -/
structure Fields (σ γ : Type) where
  numbers : List Nat
  records : σ → List Record
  parse : List Record → Option γ
  value : σ → γ
  number_mem : ∀ x, ∀ r ∈ records x, r.number ∈ numbers
  parse_eq : ∀ x rs, (∀ n ∈ numbers, lookup n rs = lookup n (records x)) → parse rs = some (value x)

namespace Fields

variable {σ γ α : Type}

/-- No field yet. -/
def start (c : γ) : Fields σ γ where
  numbers := []
  records _ := []
  parse _ := some c
  value _ := c
  number_mem _ r hr := by cases hr
  parse_eq _ _ _ := rfl

/-- One more field. -/
def field (b : Fields σ (Option α → γ)) (n : Nat) (k : Kind α) (proj : σ → Option α) (hn : n ∉ b.numbers) :
    Fields σ γ where
  numbers := n :: b.numbers
  records x := b.records x ++ Wire.field n k (proj x)
  parse rs := (b.parse rs).bind fun f => (get n k rs).map f
  value x := b.value x (proj x)
  number_mem x r hr := by
    rcases List.mem_append.1 hr with hr | hr
    · exact List.mem_cons_of_mem _ (b.number_mem x r hr)
    · obtain ⟨v, -, rfl⟩ := List.mem_map.1 hr
      exact List.mem_cons_self
  parse_eq x rs h := by
    have hrest : b.parse rs = some (b.value x) := by
      refine b.parse_eq x rs fun i hi => ?_
      have hne : n ≠ i := fun he => hn (he ▸ hi)
      rw [h i (List.mem_cons_of_mem _ hi), lookup_append, lookup_field, if_neg hne, Option.none_or]
    have hget : get n k rs = some (proj x) := by
      have hfresh : lookup n (b.records x) = none :=
        lookup_eq_none fun r hr he => hn (he ▸ b.number_mem x r hr)
      refine get_eq ?_
      rw [h n List.mem_cons_self, lookup_append, lookup_field, if_pos rfl, hfresh, Option.or_none]
    rw [hrest, Option.bind_some, hget, Option.map_some]

end Fields

/-- All fields of a message. -/
structure Message (α : Type) where
  fields : Fields α α
  value_eq : ∀ x, fields.value x = x

namespace Message

variable {α : Type}

def encode (m : Message α) (x : α) : List UInt8 := encodeRecords (m.fields.records x)

def decode (m : Message α) (data : List UInt8) : Option α := (decodeRecords data.length data).bind m.fields.parse

theorem decode_encode (m : Message α) (x : α) : m.decode (m.encode x) = some x := by
  unfold decode encode
  rw [decodeRecords_encodeRecords (Nat.le_refl _), Option.bind_some, m.fields.parse_eq x _ fun _ _ => rfl, m.value_eq]

end Message

/-- A field that holds a message. -/
def Kind.message {α : Type} (m : Message α) : Kind α where
  encode x := .bytes (m.encode x)
  decode
    | .varint _ => none
    | .bytes bs => m.decode bs
  decode_encode x := m.decode_encode x

end Wire

end Base
