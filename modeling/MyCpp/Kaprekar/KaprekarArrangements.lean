import Mathlib.Order.Bounds.Basic
import MyCpp.Kaprekar.KaprekarDigits
import MyCpp.Library.DigitRearrangement

/-! What ascNum and dscNum are among all arrangements of the digits, and for which numbers
they fit into unsigned: with ten digits the greatest arrangement may not. -/
namespace MyCpp.Kaprekar
open Nat DigitReversal DigitRearrangement

/-- The decimal digits, with one more 0 for a number that has three. -/
def digitBag (num : ℕ) : Multiset ℕ :=
  if (digits 10 num).length = 3 then 0 ::ₘ ↑(digits 10 num) else ↑(digits 10 num)

/-- The values of all arrangements of some digits, leading zeros allowed. -/
def arrangements (bag : Multiset ℕ) : Set ℕ := {n | ∃ v : List ℕ, ↑v = bag ∧ ofDigits 10 v = n}

theorem digitBag_eq (num : ℕ) : digitBag num = ↑(paddedDigits num) := by
  rw [digitBag,paddedDigits_eq]
  split
  · rw [Multiset.cons_coe,Multiset.coe_eq_coe]
    exact (List.perm_append_singleton 0 _).symm
  · rfl

theorem sortedDigits_bag (num : ℕ) : ↑(sortedDigits num) = digitBag num := by
  rw [digitBag_eq,Multiset.coe_eq_coe]
  exact List.perm_insertionSort _ _

theorem least_arrangement (num : ℕ) :
    IsLeast (arrangements (digitBag num)) (ofDigits 10 (sortedDigits num)) := by
  refine ⟨⟨_,sortedDigits_bag num,rfl⟩,?_⟩
  rintro _ ⟨v,hv,rfl⟩
  rw [← sortedDigits_bag,Multiset.coe_eq_coe] at hv
  exact descending_le (by decide) (sortedDigits_pairwise num) hv

theorem greatest_arrangement (num : ℕ) :
    IsGreatest (arrangements (digitBag num)) (ofDigits 10 (sortedDigits num).reverse) := by
  refine ⟨⟨_,?_,rfl⟩,?_⟩
  · rw [← sortedDigits_bag,Multiset.coe_eq_coe]
    exact List.reverse_perm _
  · rintro _ ⟨v,hv,rfl⟩
    rw [← sortedDigits_bag,Multiset.coe_eq_coe] at hv
    refine le_ascending (by decide) ?_ (hv.trans (List.reverse_perm _).symm)
    exact List.pairwise_reverse.mpr (sortedDigits_pairwise num)

theorem accepted_iff (num : ℕ) : (∃ p, getAscDscNum num = .ok p) ↔ Accepted num := by
  constructor
  · rintro ⟨p,hp⟩
    by_contra hr
    rw [getAscDscNum_rejected hr] at hp
    cases hp
  · intro h
    exact ⟨_,getAscDscNum_accepted h⟩

theorem accepted_values {num ascNum dscNum : ℕ} (h : getAscDscNum num = .ok (ascNum,dscNum)) :
    Accepted num ∧ ascNum = ofDigits 10 (sortedDigits num) % UINT ∧
      dscNum = ofDigits 10 (sortedDigits num).reverse % UINT := by
  have hacc : Accepted num := (accepted_iff num).mp ⟨_,h⟩
  rw [getAscDscNum_accepted hacc] at h
  cases h
  exact ⟨hacc,rfl,rfl⟩

/-- Up to nine digits getAscDscNum yields the least and the greatest arrangement, and it
accepts exactly the numbers with two different digits. -/
theorem extreme_arrangements (num : ℕ) (hnum : num < 10^9) :
    ((∃ p, getAscDscNum num = .ok p) ↔ ∃ x ∈ digitBag num, ∃ y ∈ digitBag num, x ≠ y) ∧
    ∀ ascNum dscNum, getAscDscNum num = .ok (ascNum,dscNum) →
      IsLeast (arrangements (digitBag num)) ascNum ∧ IsGreatest (arrangements (digitBag num)) dscNum := by
  constructor
  · rw [accepted_iff,digitBag_eq]
    rfl
  · intro ascNum dscNum h
    obtain ⟨_,rfl,rfl⟩ := accepted_values h
    have hlt := arrangement_fits hnum
    have hle : ofDigits 10 (sortedDigits num) ≤ ofDigits 10 (sortedDigits num).reverse :=
      ofDigits_le_reverse (by decide) (sortedDigits_pairwise num)
    rw [Nat.mod_eq_of_lt hlt,Nat.mod_eq_of_lt (hle.trans_lt hlt)]
    exact ⟨least_arrangement num,greatest_arrangement num⟩

/-- A number of three digits, arranged with the 0 that is added to it. -/
theorem extreme_arrangements_495 : getAscDscNum 495 = .ok (459,9540) ∧
    IsLeast (arrangements (digitBag 495)) 459 ∧ IsGreatest (arrangements (digitBag 495)) 9540 := by
  have hok : getAscDscNum 495 = .ok (459,9540) := rfl
  exact ⟨hok,(extreme_arrangements 495 (by decide)).2 459 9540 hok⟩

/-- Digits whose greatest arrangement stays below 2^32: at most nine of them, or none above
3, or a single 4 with no other above 2. -/
def Narrow (v : List ℕ) : Prop :=
  v.length ≤ 9 ∨ (∀ d ∈ v, d ≤ 3) ∨ v.count 4 = 1 ∧ ∀ d ∈ v, d ≤ 2 ∨ d = 4

theorem Narrow.perm {v v' : List ℕ} (h : v.Perm v') (hn : Narrow v) : Narrow v' := by
  rcases hn with hlen | hall | ⟨hcount,hall⟩
  · exact .inl (h.length_eq ▸ hlen)
  · exact .inr (.inl fun d hd => hall d (h.mem_iff.mpr hd))
  · refine .inr (.inr ⟨?_,fun d hd => hall d (h.mem_iff.mpr hd)⟩)
    rwa [← h.count_eq]

/-- The two greatest of ten digits decide whether they are narrow. -/
theorem narrow_iff {x y : ℕ} {v : List ℕ} (hs : (x :: y :: v).Pairwise (· ≥ ·)) (hlen : v.length = 8) :
    Narrow (x :: y :: v) ↔ x ≤ 3 ∨ x = 4 ∧ y ≤ 2 := by
  obtain ⟨hx,hy⟩ := List.pairwise_cons.mp hs
  have hyx : y ≤ x := hx y List.mem_cons_self
  have hyv := (List.pairwise_cons.mp hy).1
  constructor
  · rintro (hshort | hall | ⟨hcount,hall⟩)
    · simp [hlen] at hshort
    · exact .inl (hall x List.mem_cons_self)
    · rcases hall x List.mem_cons_self with h2 | h4
      · exact .inl (by omega)
      · subst h4
        rw [List.count_cons_self] at hcount
        have hnone : 4 ∉ y :: v := List.count_eq_zero.mp (by omega)
        have hy4 : y ≠ 4 := fun h => hnone (h ▸ List.mem_cons_self)
        have hy2 := hall y (by simp)
        exact .inr ⟨rfl,by omega⟩
  · rintro (h3 | ⟨h4,h2⟩)
    · refine .inr (.inl fun d hd => ?_)
      rcases List.mem_cons.mp hd with rfl | hd
      · exact h3
      · exact (hx d hd).trans h3
    · have hrest : ∀ d ∈ y :: v, d ≤ 2 := by
        intro d hd
        rcases List.mem_cons.mp hd with rfl | hd
        · exact h2
        · exact (hyv d hd).trans h2
      refine .inr (.inr ⟨?_,fun d hd => ?_⟩)
      · have hnone : (y :: v).count 4 = 0 := List.count_eq_zero.mpr fun h => absurd (hrest 4 h) (by decide)
        rw [h4,List.count_cons_self,hnone]
      · rcases List.mem_cons.mp hd with rfl | hd
        · exact .inr h4
        · exact .inl (hrest d hd)

theorem ten_digits_value {x y z : ℕ} {v : List ℕ} (hlen : v.length = 7) (hv : ∀ d ∈ v, d < 10) :
    ∃ r < 10^7, ofDigits 10 (x :: y :: z :: v).reverse = r + 10^7 * z + 10^8 * y + 10^9 * x := by
  refine ⟨ofDigits 10 v.reverse,?_,?_⟩
  · rw [← hlen,← List.length_reverse]
    exact ofDigits_lt_base_pow_length (by decide) fun d hd => hv d (List.mem_reverse.mp hd)
  · simp only [List.reverse_cons,List.append_assoc,List.cons_append,List.nil_append,ofDigits_append,
      ofDigits_cons,ofDigits_nil,List.length_reverse,hlen]
    ring

theorem greatest_lt_iff {s : List ℕ} (hs : s.Pairwise (· ≥ ·)) (hd : ∀ d ∈ s, d < 10)
    (hlen : s.length ≤ 10) : ofDigits 10 s.reverse < UINT ↔ Narrow s := by
  by_cases h9 : s.length ≤ 9
  · refine ⟨fun _ => .inl h9,fun _ => ?_⟩
    have hlt : ofDigits 10 s.reverse < 10^s.reverse.length :=
      ofDigits_lt_base_pow_length (by decide) fun d h => hd d (List.mem_reverse.mp h)
    rw [List.length_reverse] at hlt
    exact hlt.trans ((Nat.pow_le_pow_right (by decide) h9).trans_lt (by decide))
  · obtain ⟨x,y,z,v,rfl⟩ : ∃ x y z v, s = x :: y :: z :: v := by
      match s with
      | [] => simp at h9
      | [x] => simp at h9
      | [x,y] => simp at h9
      | x :: y :: z :: v => exact ⟨x,y,z,v,rfl⟩
    have hv : v.length = 7 := by
      simp only [List.length_cons] at h9 hlen
      omega
    obtain ⟨r,hr,he⟩ := ten_digits_value (x := x) (y := y) (z := z) hv fun d h => hd d (by simp [h])
    obtain ⟨hx,hy⟩ := List.pairwise_cons.mp hs
    have hzy := (List.pairwise_cons.mp hy).1 z List.mem_cons_self
    have hx10 := hd x (by simp)
    have hy10 := hd y (by simp)
    rw [narrow_iff hs (by simp [hv]),he,UINT]
    omega

theorem narrow_sortedDigits (num : ℕ) : Narrow (sortedDigits num) ↔ Narrow (digits 10 num) := by
  have hperm : (sortedDigits num).Perm (paddedDigits num) := List.perm_insertionSort _ _
  by_cases h3 : (digits 10 num).length = 3
  · have hlen : (sortedDigits num).length = 4 := by
      rw [sortedDigits_length,paddedDigits_length,if_pos h3]
    exact ⟨fun _ => .inl (by omega),fun _ => .inl (by omega)⟩
  · rw [paddedDigits_eq,if_neg h3] at hperm
    exact ⟨Narrow.perm hperm,Narrow.perm hperm.symm⟩

theorem sortedDigits_length_le {num : ℕ} (h : num < UINT) : (sortedDigits num).length ≤ 10 := by
  have hten : num < 10^10 := h.trans (by decide)
  have hlen := (digits_length_le_iff (by decide) num).mpr hten
  rw [sortedDigits_length,paddedDigits_length]
  split
  · decide
  · exact hlen

theorem Accepted.two_le {num : ℕ} (h : Accepted num) : 2 ≤ (paddedDigits num).length := by
  obtain ⟨x,hx,y,hy,hxy⟩ := h
  obtain ⟨a,m,e,he,_⟩ := ends_of_ne (sortedDigits_pairwise num) (mem_sortedDigits.mpr hx)
    (mem_sortedDigits.mpr hy) hxy
  rw [← sortedDigits_length,he]
  simp

theorem Accepted.lt {num : ℕ} (h : Accepted num) :
    ofDigits 10 (sortedDigits num) < ofDigits 10 (sortedDigits num).reverse := by
  have htwo := h.two_le
  obtain ⟨x,hx,y,hy,hxy⟩ := h
  have hgap := ofDigits_gap (b := 10) (by decide) (sortedDigits_pairwise num) (mem_sortedDigits.mpr hx)
    (mem_sortedDigits.mpr hy) hxy
  rw [← sortedDigits_length] at htwo
  have hpow : 10^1 ≤ 10^((sortedDigits num).length-1) := Nat.pow_le_pow_right (by decide) (by omega)
  omega

/-- For every number that getAscDscNum accepts: both arrangements are exact and the
subtraction does not wrap, exactly when the digits are narrow. -/
theorem exact_arithmetic_iff (num ascNum dscNum : ℕ) (hnum : num < UINT)
    (h : getAscDscNum num = .ok (ascNum,dscNum)) :
    (ascNum = ofDigits 10 (sortedDigits num) ∧ dscNum = ofDigits 10 (sortedDigits num).reverse ∧
      ascNum < dscNum ∧ nextNum num = some (dscNum - ascNum)) ↔ Narrow (digits 10 num) := by
  obtain ⟨hacc,rfl,rfl⟩ := accepted_values h
  have hdig : ∀ d ∈ sortedDigits num, d < 10 := fun d hd => paddedDigits_lt (mem_sortedDigits.mp hd)
  rw [← narrow_sortedDigits,← greatest_lt_iff (sortedDigits_pairwise num) hdig (sortedDigits_length_le hnum)]
  constructor
  · rintro ⟨_,hdsc,_,_⟩
    rw [← hdsc]
    exact Nat.mod_lt _ (by decide)
  · intro hlt
    have hless := hacc.lt
    rw [Nat.mod_eq_of_lt hlt,Nat.mod_eq_of_lt (hless.trans hlt)]
    refine ⟨rfl,rfl,hless,?_⟩
    rw [nextNum_gap hacc (Nat.add_sub_of_le hless.le).symm,Nat.mod_eq_of_lt ((Nat.sub_le _ _).trans_lt hlt)]

/-- Ten digits with a single 4. -/
theorem exact_arithmetic_iff_4000000002 : getAscDscNum 4000000002 = .ok (24,4200000000) ∧
    nextNum 4000000002 = some 4199999976 := by
  have hok : getAscDscNum 4000000002 = .ok (24,4200000000) := rfl
  have hnarrow : Narrow (digits 10 4000000002) := by
    unfold Narrow
    simp
  exact ⟨hok,((exact_arithmetic_iff 4000000002 24 4200000000 (by decide) hok).mpr hnarrow).2.2.2⟩

/-- The digits of 1000000009 arranged in descending order make 9100000000, which dscNum
loses to the range of unsigned. -/
theorem descending_arrangement_wraps : 1000000009 < UINT ∧
    getAscDscNum 1000000009 = .ok (19,510065408) ∧
    ofDigits 10 (sortedDigits 1000000009).reverse = 9100000000 ∧
    510065408 ≠ ofDigits 10 (sortedDigits 1000000009).reverse := by
  have hvalue : ofDigits 10 (sortedDigits 1000000009).reverse = 9100000000 := by decide +kernel
  refine ⟨by decide,rfl,hvalue,?_⟩
  rw [hvalue]
  decide

end MyCpp.Kaprekar
