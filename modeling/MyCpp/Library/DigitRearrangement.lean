import Mathlib.Data.List.Sort
import Mathlib.Data.Nat.Digits.Defs
import Mathlib.Tactic.Linarith

/-! Among the arrangements of some digits, least significant digit first, the descending one
has the least value and the ascending one the greatest. Both follow from what one exchange
of neighbours in an insertion sort does to the value. -/
namespace MyCpp.DigitRearrangement
open Nat
variable {b : ℕ}

section Exchange
variable {r cmp : ℕ → ℕ → Prop} [DecidableRel r]

/-- An order on values that every exchange of an insertion sort by `r` respects. -/
structure Improves (b : ℕ) (r cmp : ℕ → ℕ → Prop) : Prop where
  refl : ∀ n, cmp n n
  trans : ∀ {l m n}, cmp l m → cmp m n → cmp l n
  digit : ∀ x {m n}, cmp m n → cmp (x + b * m) (x + b * n)
  swap : ∀ {x y} n, ¬ r x y → cmp (y + b * (x + b * n)) (x + b * (y + b * n))

theorem Improves.insert (h : Improves b r cmp) (x : ℕ) (v : List ℕ) :
    cmp (ofDigits b (v.orderedInsert r x)) (ofDigits b (x :: v)) := by
  induction v with
  | nil => exact h.refl _
  | cons y v ih =>
    by_cases hxy : r x y
    · rw [List.orderedInsert_cons_of_le r v hxy]
      exact h.refl _
    · rw [List.orderedInsert_of_not_le r v hxy,ofDigits_cons,ofDigits_cons,ofDigits_cons]
      refine h.trans (h.digit y ih) ?_
      rw [ofDigits_cons]
      exact h.swap _ hxy

theorem Improves.sort (h : Improves b r cmp) (v : List ℕ) :
    cmp (ofDigits b (v.insertionSort r)) (ofDigits b v) := by
  induction v with
  | nil => exact h.refl _
  | cons x v ih =>
    rw [List.insertionSort_cons]
    refine h.trans (h.insert x _) ?_
    rw [ofDigits_cons,ofDigits_cons]
    exact h.digit x ih

end Exchange

private theorem exchange (hb : 1 ≤ b) {x y : ℕ} (h : x ≤ y) (n : ℕ) :
    y + b * (x + b * n) ≤ x + b * (y + b * n) := by
  obtain ⟨k,rfl⟩ := Nat.exists_eq_add_of_le h
  have hk : k ≤ b * k := Nat.le_mul_of_pos_left k hb
  nlinarith

theorem improves_descending (hb : 1 ≤ b) : Improves b (· ≥ ·) (· ≤ ·) where
  refl := Nat.le_refl
  trans := Nat.le_trans
  digit x _ _ h := Nat.add_le_add_left (Nat.mul_le_mul_left b h) x
  swap n h := exchange hb (Nat.le_of_not_le h) n

theorem improves_ascending (hb : 1 ≤ b) : Improves b (· ≤ ·) (· ≥ ·) where
  refl := Nat.le_refl
  trans h h' := Nat.le_trans h' h
  digit x _ _ h := Nat.add_le_add_left (Nat.mul_le_mul_left b h) x
  swap n h := exchange hb (Nat.le_of_not_le h) n

theorem descending_le (hb : 1 ≤ b) {s v : List ℕ} (hs : s.Pairwise (· ≥ ·)) (hv : v.Perm s) :
    ofDigits b s ≤ ofDigits b v := by
  have hsort : v.insertionSort (· ≥ ·) = s := by
    apply List.Perm.eq_of_pairwise' (List.pairwise_insertionSort _ v) hs
    exact (List.perm_insertionSort _ v).trans hv
  rw [← hsort]
  exact (improves_descending hb).sort v

theorem le_ascending (hb : 1 ≤ b) {s v : List ℕ} (hs : s.Pairwise (· ≤ ·)) (hv : v.Perm s) :
    ofDigits b v ≤ ofDigits b s := by
  have hsort : v.insertionSort (· ≤ ·) = s := by
    apply List.Perm.eq_of_pairwise' (List.pairwise_insertionSort _ v) hs
    exact (List.perm_insertionSort _ v).trans hv
  rw [← hsort]
  exact (improves_ascending hb).sort v

end MyCpp.DigitRearrangement
