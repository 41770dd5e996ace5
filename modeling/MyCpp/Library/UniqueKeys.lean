import Mathlib.Data.List.Perm.Subperm

/-! Association lists in which every key occurs once, read with `List.lookup`. -/
namespace MyCpp.UniqueKeys
variable {κ ν ω : Type*} [BEq κ] [LawfulBEq κ]

theorem mem_of_lookup {ms : List (κ × ν)} {k : κ} {v : ν} (h : ms.lookup k = some v) : (k,v) ∈ ms := by
  obtain ⟨before,after,rfl,_⟩ := List.lookup_eq_some_iff.mp h
  simp

theorem lookup_of_mem {ms : List (κ × ν)} (h : (ms.map Prod.fst).Nodup) {k : κ} {v : ν}
    (hm : (k,v) ∈ ms) : ms.lookup k = some v := by
  induction ms with
  | nil => cases hm
  | cons m ms ih =>
    rw [List.map_cons,List.nodup_cons] at h
    cases hm with
    | head => exact List.lookup_cons_self
    | tail _ hm =>
      have hne : k ≠ m.1 := by
        intro he
        apply h.1
        rw [← he]
        exact List.mem_map_of_mem hm
      rw [List.lookup_cons,beq_eq_false_iff_ne.mpr hne]
      exact ih h.2 hm

omit [BEq κ] [LawfulBEq κ] in
/-- With as many members, having all keys of another list means having no others. -/
theorem keys_subset {ms : List (κ × ν)} {ns : List (κ × ω)} (h : (ms.map Prod.fst).Nodup)
    (hl : ms.length = ns.length) (hs : ms.map Prod.fst ⊆ ns.map Prod.fst) :
    ns.map Prod.fst ⊆ ms.map Prod.fst := by
  apply List.Perm.subset
  apply List.Perm.symm
  apply (h.subperm hs).perm_of_length_le
  rw [List.length_map,List.length_map]
  exact Nat.le_of_eq hl.symm

end MyCpp.UniqueKeys
