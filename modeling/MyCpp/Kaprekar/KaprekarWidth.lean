import MyCpp.Kaprekar.KaprekarArrangements
import MyCpp.Kaprekar.KaprekarTermination

/-! One subtraction keeps the width of a number, with one exception for each width. For
three and four digits the exception is 999, which the padding takes back to four. -/
namespace MyCpp.Kaprekar
open Nat DigitReversal

theorem nine_dvd_sub_reverse {v : List ℕ} (h : ofDigits 10 v ≤ ofDigits 10 v.reverse) :
    9 ∣ ofDigits 10 v.reverse - ofDigits 10 v := by
  have hsum (u : List ℕ) : ofDigits 10 u ≡ u.sum [MOD 9] := by
    rw [← ofDigits_one]
    exact ofDigits_modEq' 10 1 9 rfl u
  apply (Nat.modEq_iff_dvd' h).mp
  exact (hsum v).trans (List.sum_reverse v ▸ (hsum v.reverse).symm)

theorem nextNum_dvd {num l : ℕ} (hn : num < 10^9) (h : nextNum num = some l) : 9 ∣ l := by
  obtain ⟨v,_,hs,_,_,rfl⟩ := nextNum_sorted hn h
  exact nine_dvd_sub_reverse (ofDigits_le_reverse (by decide) hs)

theorem nextNum_width {num l : ℕ} (hn : num < 10^9) (h : nextNum num = some l) :
    (digits 10 l).length = (paddedDigits num).length ∨ l = 10^((paddedDigits num).length-1) - 1 := by
  obtain ⟨hlow,hup⟩ := nextNum_bounds hn h
  have htwo := (accepted_of_nextNum h).two_le
  obtain ⟨w,hw⟩ : ∃ w, (paddedDigits num).length = w + 1 := Nat.exists_eq_succ_of_ne_zero (by omega)
  rw [hw,Nat.add_sub_cancel] at hlow
  rw [hw] at hup
  rw [hw,Nat.add_sub_cancel]
  by_cases hfull : 10^w ≤ l
  · exact .inl (digits_length_of_bounds hfull hup)
  · exact .inr (by omega)

theorem accepted_of_distance {bound l : ℕ} (h : (distance (bound+1) l).isSome = true) : Accepted l := by
  by_cases hl : l = 6174
  · subst hl
    exact accepted_of_nextNum (l := 6174) rfl
  · rw [distance,if_neg hl,Option.isSome_map] at h
    cases hm : nextNum l with
    | none => simp [hm] at h
    | some m => exact accepted_of_nextNum hm

theorem digitBag_card (num : ℕ) : (digitBag num).card = (paddedDigits num).length := by
  rw [digitBag_eq,Multiset.coe_card]

theorem four_stays {l m : ℕ} (hl : 100 ≤ l ∧ l ≤ 9999) (h : nextNum l = some m) :
    (100 ≤ m ∧ m ≤ 9999) ∧ Accepted m := by
  have hn : l < 10^9 := by omega
  have hfour := padded_four hl.1 hl.2
  have hbounds := nextNum_bounds hn h
  rw [hfour] at hbounds
  obtain ⟨x,y,h1,h9,hxy,rfl⟩ := nextNum_four hn hfour h
  exact ⟨by omega,accepted_of_distance (distance_differences x h9 h1 y hxy)⟩

end MyCpp.Kaprekar
