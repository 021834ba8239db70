import Mathlib.Algebra.BigOperators.Group.List.Basic
import Mathlib.Data.List.Sort
import Mathlib.Order.Defs.LinearOrder

/-!
# Maps with ordered keys

A finite map that lists its entries by strictly increasing key, as tree maps do.  The order of the keys is a field
of the structure, so an unsorted map cannot be built.  Every operation is read off one decomposition
(`exists_split`): around a key `k` the entries are those below `k`, at most one entry at `k`, and those above `k`;
`insert` and `erase` only touch the middle (`insert_entries`, `erase_entries`), so that `total_insert` tells what an
insertion adds to the total of the values.
-/

namespace Base

/-- A finite map whose entries are listed by strictly increasing key. -/
structure SortedMap (K V : Type) [LinearOrder K] where
  entries : List (K × V)
  sorted : entries.Pairwise (fun a b => a.1 < b.1)
deriving DecidableEq

namespace SortedMap

variable {K V : Type} [LinearOrder K]

def empty : SortedMap K V := ⟨[], List.Pairwise.nil⟩

def isEmpty (m : SortedMap K V) : Bool := m.entries.isEmpty

def size (m : SortedMap K V) : Nat := m.entries.length

def find? (m : SortedMap K V) (k : K) : Option V := m.entries.lookup k

/-- The list of entries with `k` bound to `v`. -/
def putEntry (k : K) (v : V) : List (K × V) → List (K × V)
  | [] => [(k, v)]
  | e :: es => if k < e.1 then (k, v) :: e :: es else if k = e.1 then (k, v) :: es else e :: putEntry k v es

theorem mem_putEntry {k : K} {v : V} {es : List (K × V)} {x : K × V} (h : x ∈ putEntry k v es) :
    x = (k, v) ∨ x ∈ es := by
  induction es with
  | nil => simpa [putEntry] using h
  | cons e es ih =>
    unfold putEntry at h
    split at h
    · simpa using h
    · split at h
      · simp only [List.mem_cons] at h ⊢
        rcases h with h | h
        · exact Or.inl h
        · exact Or.inr (Or.inr h)
      · simp only [List.mem_cons] at h ⊢
        rcases h with h | h
        · exact Or.inr (Or.inl h)
        · rcases ih h with h | h
          · exact Or.inl h
          · exact Or.inr (Or.inr h)

private theorem putEntry_sorted (k : K) (v : V) {es : List (K × V)} (h : es.Pairwise (fun a b => a.1 < b.1)) :
    (putEntry k v es).Pairwise (fun a b => a.1 < b.1) := by
  induction es with
  | nil => simp [putEntry]
  | cons e es ih =>
    rw [List.pairwise_cons] at h
    unfold putEntry
    split
    · rename_i hk
      rw [List.pairwise_cons, List.pairwise_cons]
      refine ⟨?_, h.1, h.2⟩
      intro x hx
      rcases List.mem_cons.1 hx with rfl | hx
      · exact hk
      · exact lt_trans hk (h.1 x hx)
    · split
      · rename_i hk
        rw [List.pairwise_cons]
        exact ⟨fun x hx => by subst hk; exact h.1 x hx, h.2⟩
      · rename_i h1 h2
        rw [List.pairwise_cons]
        refine ⟨?_, ih h.2⟩
        intro x hx
        rcases mem_putEntry hx with rfl | hx
        · exact lt_of_le_of_ne (not_lt.1 h1) (Ne.symm h2)
        · exact h.1 x hx

def insert (m : SortedMap K V) (k : K) (v : V) : SortedMap K V :=
  ⟨putEntry k v m.entries, putEntry_sorted k v m.sorted⟩

def erase (m : SortedMap K V) (k : K) : SortedMap K V :=
  ⟨m.entries.filter (fun e => e.1 ≠ k), m.sorted.filter _⟩

/-! ### The entries around a key -/

private theorem split_aux (k : K) {es : List (K × V)} (h : es.Pairwise (fun a b => a.1 < b.1)) :
    ∃ L R : List (K × V), (∀ e ∈ L, e.1 < k) ∧ (∀ e ∈ R, k < e.1) ∧
      es = L ++ (es.lookup k).toList.map (fun v => (k, v)) ++ R := by
  induction es with
  | nil => exact ⟨[], [], by simp, by simp, by simp⟩
  | cons e es ih =>
    rw [List.pairwise_cons] at h
    obtain ⟨k', v'⟩ := e
    -- the first entry is above `k`, at `k` or below it; only below it the split lies in the tail
    rcases lt_trichotomy k k' with hk | rfl | hk
    · have hall : ∀ e ∈ (k', v') :: es, k < e.1 := by
        intro e he
        rcases List.mem_cons.1 he with rfl | he
        · exact hk
        · exact lt_trans hk (h.1 e he)
      have hnone : List.lookup k ((k', v') :: es) = none := by
        rw [List.lookup_eq_none_iff]
        intro e he
        simpa using (hall e he).ne
      exact ⟨[], (k', v') :: es, by simp, hall, by simp [hnone]⟩
    · exact ⟨[], es, by simp, h.1, by simp⟩
    · obtain ⟨L, R, hL, hR, he⟩ := ih h.2
      refine ⟨(k', v') :: L, R, ?_, hR, ?_⟩
      · intro e he
        rcases List.mem_cons.1 he with rfl | he
        · exact hk
        · exact hL e he
      · have hne : (k == k') = false := by simpa using hk.ne'
        rw [List.lookup_cons, hne]
        simp only [List.cons_append, List.cons.injEq, true_and]
        exact he

/-- Around a key the entries are those below it, the one at it if there is one, and those above it. -/
theorem exists_split (m : SortedMap K V) (k : K) :
    ∃ L R : List (K × V), (∀ e ∈ L, e.1 < k) ∧ (∀ e ∈ R, k < e.1) ∧
      m.entries = L ++ (m.find? k).toList.map (fun v => (k, v)) ++ R :=
  split_aux k m.sorted

private theorem putEntry_append {k : K} (v : V) {L : List (K × V)} (hL : ∀ e ∈ L, e.1 < k) (es : List (K × V)) :
    putEntry k v (L ++ es) = L ++ putEntry k v es := by
  induction L with
  | nil => rfl
  | cons e L ih =>
    have he : e.1 < k := hL e (by simp)
    rw [List.cons_append, putEntry, if_neg (not_lt.2 he.le), if_neg he.ne', ih (fun x hx => hL x (by simp [hx]))]
    rfl

private theorem putEntry_above {k : K} (v : V) {R : List (K × V)} (hR : ∀ e ∈ R, k < e.1) :
    putEntry k v R = (k, v) :: R := by
  cases R with
  | nil => rfl
  | cons e R => rw [putEntry, if_pos (hR e (by simp))]

theorem insert_entries {m : SortedMap K V} {k : K} {o : Option V} {L R : List (K × V)} (v : V)
    (hL : ∀ e ∈ L, e.1 < k) (hR : ∀ e ∈ R, k < e.1) (h : m.entries = L ++ o.toList.map (fun v => (k, v)) ++ R) :
    (m.insert k v).entries = L ++ (k, v) :: R := by
  show putEntry k v m.entries = _
  rw [h, List.append_assoc, putEntry_append v hL]
  congr 1
  cases o with
  | none => simpa using putEntry_above v hR
  | some w => simp [putEntry]

theorem erase_entries {m : SortedMap K V} {k : K} {o : Option V} {L R : List (K × V)}
    (hL : ∀ e ∈ L, e.1 < k) (hR : ∀ e ∈ R, k < e.1) (h : m.entries = L ++ o.toList.map (fun v => (k, v)) ++ R) :
    (m.erase k).entries = L ++ R := by
  show m.entries.filter _ = _
  rw [h, List.filter_append, List.filter_append]
  have h1 : L.filter (fun e => decide (e.1 ≠ k)) = L :=
    List.filter_eq_self.2 fun e he => by simpa using (hL e he).ne
  have h2 : R.filter (fun e => decide (e.1 ≠ k)) = R :=
    List.filter_eq_self.2 fun e he => by simpa using (hR e he).ne'
  have h3 : (o.toList.map (fun v => (k, v))).filter (fun e => decide (e.1 ≠ k)) = [] := by
    cases o <;> simp
  rw [h1, h2, h3, List.append_nil]

private theorem find?_of_split {m : SortedMap K V} {k : K} {o : Option V} {L R : List (K × V)}
    (hL : ∀ e ∈ L, e.1 < k) (hR : ∀ e ∈ R, k < e.1) (h : m.entries = L ++ o.toList.map (fun v => (k, v)) ++ R) :
    m.find? k = o := by
  have h1 : L.lookup k = none := by
    rw [List.lookup_eq_none_iff]; intro e he; simpa using (hL e he).ne'
  have h2 : R.lookup k = none := by
    rw [List.lookup_eq_none_iff]; intro e he; simpa using (hR e he).ne
  unfold find?
  rw [h, List.lookup_append, List.lookup_append, h1, h2]
  cases o <;> simp

/-- A listed entry splits the list at its key. -/
theorem split_of_mem {m : SortedMap K V} {L R : List (K × V)} {k : K} {v : V}
    (h : m.entries = L ++ (k, v) :: R) : (∀ e ∈ L, e.1 < k) ∧ (∀ e ∈ R, k < e.1) := by
  have hs := m.sorted
  rw [h, List.pairwise_append, List.pairwise_cons] at hs
  exact ⟨fun e he => hs.2.2 e he (k, v) (by simp), hs.2.1.1⟩

theorem find?_eq_some_iff {m : SortedMap K V} {k : K} {v : V} : m.find? k = some v ↔ (k, v) ∈ m.entries := by
  constructor
  · intro h
    obtain ⟨L, R, _, _, he⟩ := m.exists_split k
    rw [he, h]; simp
  · intro h
    obtain ⟨L, R, he⟩ := List.append_of_mem h
    obtain ⟨hL, hR⟩ := split_of_mem he
    exact find?_of_split (o := some v) hL hR (by simpa using he)

theorem find?_insert_self (m : SortedMap K V) (k : K) (v : V) : (m.insert k v).find? k = some v := by
  obtain ⟨L, R, hL, hR, he⟩ := m.exists_split k
  exact find?_eq_some_iff.2 (insert_entries v hL hR he ▸ List.mem_append_right L List.mem_cons_self)

theorem find?_insert_of_ne (m : SortedMap K V) {k k' : K} (h : k' ≠ k) (v : V) :
    (m.insert k v).find? k' = m.find? k' := by
  obtain ⟨L, R, hL, hR, he⟩ := m.exists_split k
  refine Option.ext fun w => ?_
  rw [find?_eq_some_iff, find?_eq_some_iff, insert_entries v hL hR he, he]
  simp [h, h.symm]

/-- Maps that agree at every key are equal. -/
theorem eq_of_find?_eq {m m' : SortedMap K V} (h : ∀ k, m.find? k = m'.find? k) : m = m' := by
  have hmem : ∀ e, e ∈ m.entries ↔ e ∈ m'.entries := by
    intro e
    rw [← find?_eq_some_iff, ← find?_eq_some_iff, h]
  have hnd : ∀ n : SortedMap K V, n.entries.Nodup :=
    fun n => n.sorted.imp fun hlt heq => hlt.ne (congrArg Prod.fst heq)
  have hperm : m.entries.Perm m'.entries := (List.perm_ext_iff_of_nodup (hnd m) (hnd m')).2 hmem
  have heq : m.entries = m'.entries :=
    hperm.eq_of_pairwise (fun a b _ _ hab hba => absurd hab hba.asymm) m.sorted m'.sorted
  cases m
  cases m'
  cases heq
  rfl

/-! ### Totals -/

/-- What the values of a map add up to. -/
def total {M : Type} [AddCommMonoid M] (f : V → M) (m : SortedMap K V) : M := (m.entries.map fun e => f e.2).sum

/-- A value that is put in takes the place of the old one, which counts as zero if there was none. -/
theorem total_insert {M : Type} [AddCommMonoid M] (f : V → M) (m : SortedMap K V) (k : K) (v : V) :
    (m.insert k v).total f + ((m.find? k).map f).getD 0 = m.total f + f v := by
  obtain ⟨L, R, hL, hR, he⟩ := m.exists_split k
  have hmid : (((m.find? k).toList.map fun w => (k, w)).map fun e => f e.2).sum = ((m.find? k).map f).getD 0 := by
    cases m.find? k <;> simp
  rw [total, total, insert_entries v hL hR he, he]
  simp only [List.map_append, List.map_cons, List.sum_append, List.sum_cons, hmid]
  ac_rfl

end SortedMap

end Base
