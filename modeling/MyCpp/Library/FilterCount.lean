import Mathlib.Data.List.Basic

/-! Two tests on a list, one of them weaker: how many elements pass tells them apart. -/
namespace MyCpp.FilterCount
variable {α : Type*} {p q : α → Bool}

/-- Tests that as many elements pass agree on all of them. -/
theorem agree_of_countP_eq (h : ∀ x, p x = true → q x = true) {xs : List α}
    (hc : xs.countP p = xs.countP q) : ∀ x ∈ xs, p x = q x := by
  rw [List.countP_eq_length_filter,List.countP_eq_length_filter] at hc
  have heq : xs.filter p = xs.filter q := (List.monotone_filter_right xs h).eq_of_length hc
  intro x hx
  cases hq : q x with
  | false =>
    cases hp : p x with
    | false => rfl
    | true =>
      rw [h x hp] at hq
      cases hq
  | true =>
    have hmem : x ∈ xs.filter p := by
      rw [heq]
      exact List.mem_filter.mpr ⟨hx,hq⟩
    exact (List.mem_filter.mp hmem).2

theorem countP_lt (h : ∀ x, p x = true → q x = true) {xs : List α} {x : α} (hx : x ∈ xs)
    (hp : p x = false) (hq : q x = true) : xs.countP p < xs.countP q := by
  apply Nat.lt_of_le_of_ne
  · exact List.countP_mono_left fun y _ => h y
  · intro hc
    have hagree := agree_of_countP_eq h hc x hx
    rw [hp,hq] at hagree
    cases hagree

end MyCpp.FilterCount
