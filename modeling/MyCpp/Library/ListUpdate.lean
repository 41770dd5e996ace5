import Mathlib.Algebra.BigOperators.Group.List.Basic
import Mathlib.Algebra.Order.Ring.Nat

/-! Aggregates over a list of components when one component is replaced. -/
namespace MyCpp.ListUpdate
variable {α β : Type*}

/-- Replacing one entry moves a sum by the difference of the two contributions. -/
theorem sum_map_set (f : α → Nat) {l : List α} {i : Nat} {a : α} (h : l[i]? = some a) (b : α) :
    ((l.set i b).map f).sum + f a = (l.map f).sum + f b := by
  induction l generalizing i with
  | nil => cases h
  | cons c l ih =>
    cases i with
    | zero =>
      cases h
      simp only [List.set_cons_zero,List.map_cons,List.sum_cons]
      omega
    | succ i =>
      have := ih (i := i) h
      simp only [List.set_cons_succ,List.map_cons,List.sum_cons]
      omega

theorem flatMap_eq_nil {f : α → List β} {l : List α} (h : ∀ (i : Nat) a, l[i]? = some a → f a = []) :
    l.flatMap f = [] := by
  refine List.flatMap_eq_nil_iff.mpr fun a ha => ?_
  obtain ⟨i,hi⟩ := List.mem_iff_getElem?.mp ha
  exact h i a hi

theorem flatMap_eq_of_others_nil {f : α → List β} {l : List α} {i : Nat} {a : α} (hi : l[i]? = some a)
    (h : ∀ (j : Nat) b, j ≠ i → l[j]? = some b → f b = []) : l.flatMap f = f a := by
  induction l generalizing i with
  | nil => cases hi
  | cons c l ih =>
    cases i with
    | zero =>
      cases hi
      have htail : l.flatMap f = [] := flatMap_eq_nil fun j b hj => h (j+1) b (Nat.succ_ne_zero j) hj
      simp [htail]
    | succ i =>
      have hc : f c = [] := h 0 c (Nat.succ_ne_zero i).symm rfl
      have htail := ih (i := i) hi fun j b hj hb => h (j+1) b (by omega) hb
      simp [hc,htail]

end MyCpp.ListUpdate
