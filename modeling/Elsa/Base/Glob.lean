import Mathlib.Data.List.Basic
import Mathlib.Data.List.Infix

/-!
# Texts with a separator, and patterns

A text that is joined from two parts with a separator between them can be cut elsewhere when the parts hold the
separator too: `append_cons_eq_append_cons` lists the ways.  A `Glob` is a pattern of literals, of places for any
one letter and of places for any text; a pattern of two literal texts around such a place matches what starts with
the one and goes on to end with the other (`matches_around`).
-/

namespace Base

variable {α : Type}

/-- The separator `a` in one text: both cuts are at the same place, or the one or the other is further on. -/
theorem append_cons_eq_append_cons {a : α} {t t' s s' : List α} :
    t ++ a :: s = t' ++ a :: s' ↔
      (t = t' ∧ s = s') ∨ (∃ w, t' = t ++ a :: w ∧ s = w ++ a :: s') ∨ ∃ w, t = t' ++ a :: w ∧ s' = w ++ a :: s := by
  rw [List.append_eq_append_iff]
  constructor
  · rintro (⟨as, ht, hs⟩ | ⟨as, ht, hs⟩)
    · cases as with
      | nil => exact .inl ⟨by rw [ht, List.append_nil], (List.cons_inj_right a).1 hs⟩
      | cons b w =>
        obtain ⟨rfl, hrest⟩ := List.cons.inj hs
        exact .inr (.inl ⟨w, ht, hrest⟩)
    · cases as with
      | nil => exact .inl ⟨by rw [ht, List.append_nil], ((List.cons_inj_right a).1 hs).symm⟩
      | cons b w =>
        obtain ⟨rfl, hrest⟩ := List.cons.inj hs
        exact .inr (.inr ⟨w, ht, hrest⟩)
  · rintro (⟨rfl, rfl⟩ | ⟨w, rfl, rfl⟩ | ⟨w, rfl, rfl⟩)
    · exact .inl ⟨[], by simp⟩
    · exact .inl ⟨a :: w, by simp⟩
    · exact .inr ⟨a :: w, by simp⟩

namespace Glob

/-- A piece of a pattern. -/
inductive Token (α : Type)
  | literal (a : α)
  | anyOne
  | anyMany
deriving DecidableEq

variable [DecidableEq α]

/-- The pattern that a text stands for; classes in brackets are not among its pieces. -/
def parse (pattern : List Char) : List (Token Char) :=
  pattern.map fun c => if c = '*' then .anyMany else if c = '?' then .anyOne else .literal c

/-- A text without the letters that have a meaning stands for itself. -/
theorem parse_of_plain {text : List Char} (hstar : '*' ∉ text) (hone : '?' ∉ text) :
    parse text = text.map .literal := by
  refine List.map_congr_left fun c hc => ?_
  rw [if_neg (ne_of_mem_of_not_mem hc hstar), if_neg (ne_of_mem_of_not_mem hc hone)]

/-- The whole text is matched by the pattern. -/
def matches_ : List (Token α) → List α → Bool
  | [], text => text.isEmpty
  | .literal a :: pattern, b :: text => decide (a = b) && matches_ pattern text
  | .anyOne :: pattern, _ :: text => matches_ pattern text
  | .literal _ :: _, [] | .anyOne :: _, [] => false
  | .anyMany :: pattern, text => text.tails.any fun rest => matches_ pattern rest

private theorem matches_anyMany {pattern : List (Token α)} {text : List α} :
    matches_ (.anyMany :: pattern) text = true ↔ ∃ m rest, text = m ++ rest ∧ matches_ pattern rest = true := by
  rw [matches_, List.any_eq_true]
  constructor
  · rintro ⟨rest, hmem, hrest⟩
    obtain ⟨m, rfl⟩ := (List.mem_tails _ _).1 hmem
    exact ⟨m, rest, rfl, hrest⟩
  · rintro ⟨m, rest, rfl, hrest⟩
    exact ⟨rest, (List.mem_tails _ _).2 (List.suffix_append _ _), hrest⟩

private theorem matches_literals_append {p text : List α} {pattern : List (Token α)} :
    matches_ (p.map .literal ++ pattern) text = true ↔ ∃ rest, text = p ++ rest ∧ matches_ pattern rest = true := by
  induction p generalizing text with
  | nil => simp
  | cons a p ih =>
    cases text with
    | nil => simp [matches_]
    | cons b text =>
      simp only [List.map_cons, List.cons_append, matches_, Bool.and_eq_true, decide_eq_true_eq, ih, List.cons.injEq]
      constructor
      · rintro ⟨rfl, rest, rfl, hrest⟩
        exact ⟨rest, ⟨rfl, rfl⟩, hrest⟩
      · rintro ⟨rest, ⟨rfl, rfl⟩, hrest⟩
        exact ⟨rfl, rest, rfl, hrest⟩

private theorem matches_literals {p text : List α} : matches_ (p.map .literal) text = true ↔ text = p := by
  have h : matches_ (p.map .literal ++ []) text = true ↔ _ := matches_literals_append
  simpa [matches_] using h

/-- A text that starts with `p` and goes on to end with `q`. -/
theorem matches_around {p q text : List α} :
    matches_ (p.map .literal ++ .anyMany :: q.map .literal) text = true ↔ ∃ m, text = p ++ (m ++ q) := by
  simp only [matches_literals_append, matches_anyMany, matches_literals]
  constructor
  · rintro ⟨_, rfl, m, _, rfl, rfl⟩
    exact ⟨m, rfl⟩
  · rintro ⟨m, rfl⟩
    exact ⟨m ++ q, rfl, m, q, rfl, rfl⟩

end Glob

end Base
