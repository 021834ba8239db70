import Mathlib.Data.List.Nodup
import Mathlib.Data.List.Perm.Basic

/-!
# An index into addressed cells

Cells live at addresses that are handed out in turn; each carries a key, and a partial map sends the keys to the
addresses. `Indexed ix slots next` says that the map is exactly the one of the listed (key, address) pairs, that
neither keys nor addresses are repeated, and that `next` is an address not yet handed out.  It survives the removal
of some cells (`Indexed.erase`) and the allocation of a new one (`Indexed.alloc`).
-/

namespace Base

variable {κ : Type}

structure Indexed (ix : κ → Option Nat) (slots : List (κ × Nat)) (next : Nat) : Prop where
  index_iff : ∀ k a, ix k = some a ↔ (k, a) ∈ slots
  keys_nodup : (slots.map Prod.fst).Nodup
  addrs_nodup : (slots.map Prod.snd).Nodup
  addr_lt : ∀ x ∈ slots, x.2 < next

namespace Indexed

variable {ix ix' : κ → Option Nat} {slots : List (κ × Nat)} {next : Nat}

theorem nil (next : Nat) : Indexed (fun _ : κ => none) [] next :=
  ⟨by simp, by simp, by simp, by simp⟩

theorem perm {slots' : List (κ × Nat)} (h : Indexed ix slots next) (hp : slots.Perm slots') :
    Indexed ix slots' next where
  index_iff k a := (h.index_iff k a).trans hp.mem_iff
  keys_nodup := (hp.map Prod.fst).nodup_iff.1 h.keys_nodup
  addrs_nodup := (hp.map Prod.snd).nodup_iff.1 h.addrs_nodup
  addr_lt x hx := h.addr_lt x (hp.mem_iff.2 hx)

theorem free_iff (h : Indexed ix slots next) {k : κ} : ix k = none ↔ k ∉ slots.map Prod.fst := by
  rw [Option.eq_none_iff_forall_ne_some]
  constructor
  · rintro hk hmem
    obtain ⟨x, hx, rfl⟩ := List.mem_map.1 hmem
    exact hk x.2 ((h.index_iff x.1 x.2).2 hx)
  · intro hmem a ha
    exact hmem (List.mem_map.2 ⟨(k, a), (h.index_iff k a).1 ha, rfl⟩)

theorem erase [DecidableEq κ] {gone kept : List (κ × Nat)} (h : Indexed ix slots next)
    (hp : slots.Perm (gone ++ kept)) (hix : ∀ k, ix' k = if k ∈ gone.map Prod.fst then none else ix k) :
    Indexed ix' kept next := by
  obtain ⟨h1, h2, h3, h4⟩ := h.perm hp
  rw [List.map_append, List.nodup_append] at h2 h3
  refine ⟨fun k a => ?_, h2.2.1, h3.2.1, fun x hx => h4 x (List.mem_append_right _ hx)⟩
  rw [hix]
  split
  · rename_i hk
    constructor
    · intro hc; cases hc
    · intro hmem
      exact absurd rfl (h2.2.2 k hk k (List.mem_map.2 ⟨(k, a), hmem, rfl⟩))
  · rename_i hk
    rw [h1, List.mem_append]
    constructor
    · rintro (hg | hg)
      · exact absurd (List.mem_map.2 ⟨(k, a), hg, rfl⟩) hk
      · exact hg
    · exact Or.inr

theorem alloc [DecidableEq κ] {k : κ} (h : Indexed ix slots next) (hk : k ∉ slots.map Prod.fst)
    (hix : ∀ k', ix' k' = if k' = k then some next else ix k') : Indexed ix' ((k, next) :: slots) (next + 1) := by
  refine ⟨fun k' a => ?_, ?_, ?_, fun x hx => ?_⟩
  · rw [hix, List.mem_cons]
    split
    · rename_i hkk
      subst hkk
      constructor
      · intro ha; left; cases ha; rfl
      · rintro (ha | ha)
        · cases ha; rfl
        · exact absurd (List.mem_map.2 ⟨(k', a), ha, rfl⟩) hk
    · rename_i hkk
      rw [h.index_iff]
      constructor
      · exact Or.inr
      · rintro (ha | ha)
        · cases ha; exact absurd rfl hkk
        · exact ha
  · rw [List.map_cons, List.nodup_cons]
    exact ⟨hk, h.keys_nodup⟩
  · rw [List.map_cons, List.nodup_cons]
    refine ⟨fun hmem => ?_, h.addrs_nodup⟩
    obtain ⟨x, hx, hxn⟩ := List.mem_map.1 hmem
    have := h.addr_lt x hx
    simp only at hxn
    omega
  · rcases List.mem_cons.1 hx with rfl | hx
    · exact Nat.lt_succ_self next
    · exact Nat.lt_succ_of_lt (h.addr_lt x hx)

end Indexed

end Base
