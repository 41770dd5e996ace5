import Mathlib.Data.List.Induction
import Mathlib.Data.Nat.Digits.Lemmas
import Mathlib.Tactic.Ring

/-! Values of descending digit lists, least significant digit first, against the values of
their reversals. The outer two digits alone separate the two values by their place value. -/
namespace MyCpp.DigitReversal
open Nat
variable {b : ℕ}

theorem ofDigits_ends (x y : ℕ) (m : List ℕ) :
    ofDigits b (x :: (m ++ [y])) = x + b * ofDigits b m + b^(m.length+1) * y := by
  rw [ofDigits_cons,ofDigits_append,ofDigits_singleton]
  ring

theorem reverse_ends (x y : ℕ) (m : List ℕ) : (x :: (m ++ [y])).reverse = y :: (m.reverse ++ [x]) := by
  simp

theorem ends_bounds {x y : ℕ} {m : List ℕ} (h : (x :: (m ++ [y])).Pairwise (· ≥ ·)) {z : ℕ}
    (hz : z ∈ x :: (m ++ [y])) : y ≤ z ∧ z ≤ x := by
  obtain ⟨hx,hm⟩ := List.pairwise_cons.mp h
  have hy := (List.pairwise_append.mp hm).2.2
  rcases List.mem_cons.mp hz with rfl | hz
  · exact ⟨hx y (by simp),le_rfl⟩
  · refine ⟨?_,hx z hz⟩
    rcases List.mem_append.mp hz with hz | hz
    · exact hy z hz y (by simp)
    · exact (List.mem_singleton.mp hz).ge

theorem descending_middle {x y : ℕ} {m : List ℕ} (h : (x :: (m ++ [y])).Pairwise (· ≥ ·)) :
    m.Pairwise (· ≥ ·) :=
  (List.pairwise_cons.mp h).2.sublist (List.sublist_append_left m [y])

theorem ends_gap (hb : 1 ≤ b) {x y : ℕ} (hxy : y ≤ x) {m : List ℕ} {g : ℕ}
    (hm : ofDigits b m.reverse = ofDigits b m + g) :
    ofDigits b (x :: (m ++ [y])).reverse =
      ofDigits b (x :: (m ++ [y])) + ((x-y) * (b^(m.length+1) - 1) + b * g) := by
  obtain ⟨k,rfl⟩ := Nat.exists_eq_add_of_le hxy
  obtain ⟨e,he⟩ := Nat.exists_eq_add_of_le (Nat.one_le_pow (m.length+1) b hb)
  rw [reverse_ends,ofDigits_ends,ofDigits_ends,List.length_reverse,hm,he]
  simp only [Nat.add_sub_cancel_left]
  ring

theorem ofDigits_le_reverse (hb : 1 ≤ b) {v : List ℕ} (h : v.Pairwise (· ≥ ·)) :
    ofDigits b v ≤ ofDigits b v.reverse := by
  induction v using List.bidirectionalRec with
  | nil => simp
  | singleton x => simp
  | cons_append x m y ih =>
    have hxy : y ≤ x := (ends_bounds h (by simp : y ∈ x :: (m ++ [y]))).2
    obtain ⟨g,hg⟩ := Nat.exists_eq_add_of_le (ih (descending_middle h))
    rw [ends_gap hb hxy hg]
    exact Nat.le_add_right _ _

/-- Descending lists that are not constant start above their last digit. -/
theorem ends_of_ne {v : List ℕ} (h : v.Pairwise (· ≥ ·)) {p q : ℕ} (hp : p ∈ v) (hq : q ∈ v)
    (hpq : p ≠ q) : ∃ x m y, v = x :: (m ++ [y]) ∧ y < x := by
  cases v using List.bidirectionalRec with
  | nil => cases hp
  | singleton x =>
    simp only [List.mem_singleton] at hp hq
    exact absurd (hp.trans hq.symm) hpq
  | cons_append x m y =>
    refine ⟨x,m,y,rfl,?_⟩
    have hp := ends_bounds h hp
    have hq := ends_bounds h hq
    omega

/-- Reversing a descending list that is not constant adds at least the place value of its
last digit, less one. -/
theorem ofDigits_gap (hb : 1 ≤ b) {v : List ℕ} (h : v.Pairwise (· ≥ ·)) {p q : ℕ} (hp : p ∈ v)
    (hq : q ∈ v) (hpq : p ≠ q) :
    ofDigits b v + (b^(v.length-1) - 1) ≤ ofDigits b v.reverse := by
  obtain ⟨x,m,y,rfl,hxy⟩ := ends_of_ne h hp hq hpq
  obtain ⟨g,hg⟩ := Nat.exists_eq_add_of_le (ofDigits_le_reverse hb (descending_middle h))
  have hlen : (x :: (m ++ [y])).length - 1 = m.length + 1 := by simp
  have houter : b^(m.length+1) - 1 ≤ (x-y) * (b^(m.length+1) - 1) :=
    Nat.le_mul_of_pos_left _ (Nat.sub_pos_of_lt hxy)
  rw [ends_gap hb hxy.le hg,hlen]
  omega

end MyCpp.DigitReversal
