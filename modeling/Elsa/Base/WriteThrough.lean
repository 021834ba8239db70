import Mathlib.Logic.Basic

/-!
# Writing through

A memory has a store behind it.  Some operations change an entry of the memory and leave the store as it is; others
change entries of the memory and write them.  A log tells which entries an operation changed without writing them,
and which it wrote.

An entry is stale if it was changed since it was last written (`stale`).  Entries that are not stale are the same in
the memory and in the store (`InSync`), whatever the operations are, as long as each of them does to the two what
its note says.
-/

namespace Base

/-- What an operation did: it changed an entry in the memory alone, or it wrote entries. -/
inductive Note (ι : Type)
  | changed (entry : ι)
  | written (entries : List ι)

variable {ι β : Type} [DecidableEq ι]

/-- The state of an entry after one more note. -/
def Note.marks (entry : ι) (isStale : Bool) : Note ι → Bool
  | .changed e => isStale || e = entry
  | .written es => isStale && !(es.contains entry)

/-- The entry was changed after it was last written. -/
def stale (log : List (Note ι)) (entry : ι) : Bool := log.foldl (Note.marks entry) false

private theorem stale_concat (log : List (Note ι)) (note : Note ι) (entry : ι) :
    stale (log ++ [note]) entry = note.marks entry (stale log entry) := by
  rw [stale, List.foldl_append]
  rfl

/-- What is not stale is stored. -/
def InSync (memory store : ι → β) (log : List (Note ι)) :
    Prop := ∀ entry, stale log entry = false → store entry = memory entry

namespace InSync

variable {memory memory' store store' : ι → β} {log : List (Note ι)}

theorem start (h : store = memory) : InSync memory store [] := fun _ _ => h ▸ rfl

/-- One entry of the memory may change if it is noted. -/
theorem changed (h : InSync memory store log) {e : ι} (hmem : ∀ entry, entry ≠ e → memory' entry = memory entry) :
    InSync memory' store (log ++ [.changed e]) := by
  intro entry hfresh
  rw [stale_concat, Note.marks, Bool.or_eq_false_iff, decide_eq_false_iff_not] at hfresh
  rw [hmem entry (Ne.symm hfresh.2)]
  exact h entry hfresh.1

/-- Entries that are written may change, and are stored as they are then. -/
theorem written (h : InSync memory store log) {es : List ι}
    (hmem : ∀ entry, entry ∉ es → memory' entry = memory entry) (hstore : ∀ entry, entry ∉ es →
      store' entry = store entry) (hwrite : ∀ entry ∈ es, store' entry = memory' entry) :
    InSync memory' store' (log ++ [.written es]) := by
  intro entry hfresh
  rw [stale_concat, Note.marks, Bool.and_eq_false_iff, Bool.not_eq_false', List.contains_iff_mem] at hfresh
  by_cases hwritten : entry ∈ es
  · exact hwrite entry hwritten
  · rw [hstore entry hwritten, hmem entry hwritten]
    exact h entry (hfresh.resolve_right hwritten)

end InSync

end Base
