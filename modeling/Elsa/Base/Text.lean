import Mathlib.Data.List.Basic
import Mathlib.Data.List.DropRight

/-!
# Texts: cutting, trimming, replacing

A text is a list of letters.  It is cut at each separator; the pieces are trimmed, and those that are empty are left
out (`fields`).  Items that were joined with the separator come back from this if and only if none is empty, none
holds the separator and trimming changes none (`fields_intercalate_iff`).  `strip` is a way to trim: it takes
letters of one kind off both ends.

`replace` puts a text in the place of another one, from left to right.
-/

namespace Base

variable {α : Type} [BEq α] [LawfulBEq α] {sep : α}

/-! ### Cutting -/

theorem splitOn_append_cons (text rest : List α) :
    (text ++ sep :: rest).splitOn sep = text.splitOn sep ++ rest.splitOn sep :=
  List.splitOnP_append_cons text rest (beq_self_eq_true sep)

theorem splitOn_of_notMem {text : List α} (h : sep ∉ text) : text.splitOn sep = [text] :=
  List.splitOnP_eq_singleton fun _ hc => beq_false_of_ne (ne_of_mem_of_not_mem hc h)

theorem notMem_of_mem_splitOn {text piece : List α} (h : piece ∈ text.splitOn sep) : sep ∉ piece := by
  induction hn : text.length using Nat.strongRecOn generalizing text with
  | ind n ih =>
    by_cases hsep : sep ∈ text
    · obtain ⟨first, rest, rfl, hfirst⟩ := List.eq_append_cons_of_mem hsep
      rw [splitOn_append_cons, splitOn_of_notMem hfirst] at h
      rcases List.mem_cons.1 h with rfl | h
      · exact hfirst
      · exact ih rest.length (by simp at hn; omega) h rfl
    · rw [splitOn_of_notMem hsep] at h
      exact List.mem_singleton.1 h ▸ hsep

/-- Joined texts, cut inside one of them. -/
theorem intercalate_append_cons {β : Type} (sep : List β) (before : List (List β)) (left right : List β)
    (after : List (List β)) :
    sep.intercalate (before ++ (left ++ right) :: after) =
      sep.intercalate (before ++ [left]) ++ (right ++ after.flatMap (sep ++ ·)) := by
  have hcons : ∀ (text : List β) (texts : List (List β)), sep.intercalate (text :: texts) =
      text ++ texts.flatMap (sep ++ ·) := by
    intro text texts
    induction texts generalizing text with
    | nil => simp
    | cons next texts ih =>
      rw [List.intercalate_cons_cons, ih, List.flatMap_cons, List.append_assoc, List.append_assoc]
  cases before with
  | nil => simp [hcons]
  | cons text before => simp [hcons]

/-! ### Fields -/

/-- The pieces between the separators, trimmed, without those that are then empty. -/
def fields (sep : α) (trim : List α → List α) (text : List α) : List (List α) :=
  ((text.splitOn sep).map trim).filter fun piece => !piece.isEmpty

theorem fields_of_notMem {trim : List α → List α} {text : List α} (h : sep ∉ text) :
    fields sep trim text = if trim text = [] then [] else [trim text] := by
  rw [fields, splitOn_of_notMem h, List.map_singleton, List.filter_singleton]
  cases trim text <;> simp

theorem fields_append_cons (trim : List α → List α) (text rest : List α) :
    fields sep trim (text ++ sep :: rest) = fields sep trim text ++ fields sep trim rest := by
  rw [fields, splitOn_append_cons, List.map_append, List.filter_append]
  rfl

/-- Trimming takes letters away. -/
def Trims (trim : List α → List α) : Prop := ∀ text, trim text ⊆ text

variable {trim : List α → List α}

private theorem of_mem_fields (htrim : Trims trim) {text piece : List α} (h : piece ∈ fields sep trim text) :
    piece ≠ [] ∧ sep ∉ piece := by
  obtain ⟨hmem, hne⟩ := List.mem_filter.1 h
  obtain ⟨raw, hraw, rfl⟩ := List.mem_map.1 hmem
  exact ⟨by simpa using hne, fun hsep => notMem_of_mem_splitOn hraw (htrim raw hsep)⟩

private theorem fields_intercalate (htrim : Trims trim) {items : List (List α)} (h : ∀ item ∈ items, sep ∉ item) :
    fields sep trim ([sep].intercalate items) = (items.map trim).filter fun piece => !piece.isEmpty := by
  cases items with
  | nil =>
    have hnil : trim [] = [] := List.eq_nil_of_subset_nil (htrim [])
    rw [List.intercalate_nil, fields_of_notMem List.not_mem_nil, if_pos hnil]
    rfl
  | cons item items => rw [fields, List.splitOn_intercalate sep h (List.cons_ne_nil _ _)]

theorem map_eq_self_iff {β : Type} {f : β → β} {l : List β} : l.map f = l ↔ ∀ b ∈ l, f b = b := by
  conv_lhs => rhs; rw [← List.map_id l]
  exact List.map_inj_left

private theorem eq_of_filter_map_eq_self {β : Type} {f : List β → List β} {items : List (List β)}
    (h : (items.map f).filter (fun piece => !piece.isEmpty) = items) : ∀ item ∈ items, f item = item := by
  have hlen : ((items.map f).filter fun piece => !piece.isEmpty).length = (items.map f).length := by
    rw [h, List.length_map]
  rw [List.filter_eq_self.2 (List.length_filter_eq_length_iff.1 hlen)] at h
  exact map_eq_self_iff.1 h

/-- Items that are joined come back if and only if none is empty, holds the separator or is changed by trimming. -/
theorem fields_intercalate_iff (htrim : Trims trim) {items : List (List α)} :
    fields sep trim ([sep].intercalate items) = items ↔
      ∀ item ∈ items, item ≠ [] ∧ sep ∉ item ∧ trim item = item := by
  constructor
  · intro h item hmem
    have hread : ∀ item ∈ items, item ≠ [] ∧ sep ∉ item := fun item hmem => of_mem_fields htrim (h.symm ▸ hmem)
    rw [fields_intercalate htrim fun item hmem => (hread item hmem).2] at h
    exact ⟨(hread item hmem).1, (hread item hmem).2, eq_of_filter_map_eq_self h item hmem⟩
  · intro h
    have hmap : items.map trim = items := map_eq_self_iff.2 fun item hmem => (h item hmem).2.2
    rw [fields_intercalate htrim fun item hmem => (h item hmem).2.1, hmap, List.filter_eq_self]
    exact fun item hmem => by simpa using (h item hmem).1

theorem map_ofList_eq_iff {texts : List (List Char)} {items : List String} :
    texts.map String.ofList = items ↔ texts = items.map String.toList := by
  constructor
  · rintro rfl
    rw [List.map_map]
    exact (map_eq_self_iff.2 fun _ _ => String.toList_ofList).symm
  · rintro rfl
    rw [List.map_map]
    exact map_eq_self_iff.2 fun _ _ => String.ofList_toList

/-! ### Stripping -/

/-- Letters of the kind `p` are taken off both ends. -/
def strip {β : Type} (p : β → Bool) (text : List β) : List β := (text.dropWhile p).rdropWhile p

section Strip

variable {β : Type} {p : β → Bool} {text : List β}

theorem strip_subset (p : β → Bool) (text : List β) : strip p text ⊆ text := fun _ hc =>
  (List.dropWhile_suffix p).subset ((List.rdropWhile_prefix p _).subset hc)

private theorem dropWhile_eq_self_iff_head : text.dropWhile p = text ↔ ∀ c ∈ text.head?, p c = false := by
  cases text with
  | nil => simp
  | cons c text => simp [List.dropWhile_eq_self_iff]

theorem rdropWhile_eq_self_iff_getLast : text.rdropWhile p = text ↔ ∀ c ∈ text.getLast?, p c = false := by
  rw [List.rdropWhile_eq_self_iff]
  constructor
  · intro h c hc
    obtain ⟨hne, rfl⟩ := List.mem_getLast?_eq_getLast hc
    simpa using h hne
  · intro h hne
    simpa using h _ (List.getLast_mem_getLast? hne)

/-- Nothing is taken off a text whose ends are of another kind. -/
theorem strip_eq_self_iff :
    strip p text = text ↔ (∀ c ∈ text.head?, p c = false) ∧ ∀ c ∈ text.getLast?, p c = false := by
  rw [← dropWhile_eq_self_iff_head, ← rdropWhile_eq_self_iff_getLast]
  constructor
  · intro h
    have hinner : (text.dropWhile p).length ≤ text.length := (List.dropWhile_suffix p).length_le
    have houter : (strip p text).length ≤ (text.dropWhile p).length := (List.rdropWhile_prefix p _).length_le
    rw [h] at houter
    have hdrop : text.dropWhile p = text := (List.dropWhile_suffix p).eq_of_length (by omega)
    rw [strip, hdrop] at h
    exact ⟨hdrop, h⟩
  · rintro ⟨hdrop, hrdrop⟩
    rw [strip, hdrop, hrdrop]

theorem strip_of_forall (h : ∀ c ∈ text, p c = false) : strip p text = text :=
  strip_eq_self_iff.2 ⟨fun c hc => h c (List.mem_of_mem_head? hc), fun c hc => h c (List.mem_of_mem_getLast? hc)⟩

/-- Stripping fewer letters changes nothing where stripping more changes nothing. -/
theorem strip_eq_self_of_imp {q : β → Bool} (hpq : ∀ c, p c = true → q c = true) (h : strip q text = text) :
    strip p text = text := by
  have hfalse : ∀ c, q c = false → p c = false :=
    fun c hq => Bool.eq_false_iff.2 fun hp => Bool.eq_false_iff.1 hq (hpq c hp)
  obtain ⟨hhead, hlast⟩ := strip_eq_self_iff.1 h
  exact strip_eq_self_iff.2 ⟨fun c hc => hfalse c (hhead c hc), fun c hc => hfalse c (hlast c hc)⟩

end Strip

/-! ### Replacing -/

/-- `old` is replaced from the letter on that comes after `skip` letters. -/
def replaceFrom (old new : List α) : Nat → List α → List α
  | _, [] => []
  | skip + 1, _ :: text => replaceFrom old new skip text
  | 0, c :: text =>
    if old.isPrefixOf (c :: text) then new ++ replaceFrom old new (old.length - 1) text
      else c :: replaceFrom old new 0 text

/-- `new` for each `old`, which is not empty. -/
def replace (old new text : List α) : List α := replaceFrom old new 0 text

section Replace

variable {old new : List α} {c : α}

private theorem replaceFrom_append {β : Type} [BEq β] {old new skipped : List β} (text : List β) :
    replaceFrom old new skipped.length (skipped ++ text) = replace old new text := by
  induction skipped with
  | nil => rfl
  | cons _ skipped ih => exact ih

theorem replace_append_of_notMem {before : List α} (hold : old.head? = some c) (h : c ∉ before) (text : List α) :
    replace old new (before ++ text) = before ++ replace old new text := by
  induction before with
  | nil => rfl
  | cons d before ih =>
    obtain ⟨hcd, hbefore⟩ := not_or.1 (mt List.mem_cons.2 h)
    have hprefix : ¬ old.isPrefixOf (d :: (before ++ text)) := by
      cases old with
      | nil => cases hold
      | cons o old =>
        cases hold
        simp [hcd]
    rw [List.cons_append, replace, replaceFrom, if_neg hprefix]
    exact congrArg (d :: ·) (ih hbefore)

/-- A text without the first letter of `old` stays. -/
theorem replace_of_notMem {text : List α} (hold : old.head? = some c) (h : c ∉ text) :
    replace old new text = text := by
  have happend : replace old new (text ++ []) = text ++ replace old new [] := replace_append_of_notMem hold h []
  rw [List.append_nil] at happend
  exact happend.trans (List.append_nil text)

theorem replace_append_self (hold : old ≠ []) (text : List α) :
    replace old new (old ++ text) = new ++ replace old new text := by
  cases old with
  | nil => exact absurd rfl hold
  | cons o old =>
    have hprefix : (o :: old).isPrefixOf (o :: (old ++ text)) :=
      List.isPrefixOf_iff_prefix.2 (List.prefix_append (o :: old) text)
    rw [List.cons_append, replace, replaceFrom, if_pos hprefix]
    exact congrArg (new ++ ·) (replaceFrom_append text)

end Replace

end Base
