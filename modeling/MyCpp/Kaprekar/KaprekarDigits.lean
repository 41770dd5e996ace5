import MyCpp.Kaprekar.KaprekarModel
import MyCpp.Library.DigitReversal

/-! What the digit routines of kaprekar.cxx compute, for every unsigned argument, and what
one subtraction of the loop does to a number of at most nine digits. -/
namespace MyCpp.Kaprekar
open Nat DigitReversal

theorem breakNum_eq (num : ℕ) (v : List ℕ) : breakNum num v = v ++ digits 10 num := by
  induction num using Nat.strongRecOn generalizing v with
  | ind num ih =>
    rw [breakNum]
    by_cases h : num = 0
    · simp [h]
    · rw [if_pos h,ih _ (Nat.div_lt_self (Nat.pos_of_ne_zero h) (by decide)),List.append_assoc,
        List.singleton_append,← digits_def' (by decide) (Nat.pos_of_ne_zero h)]

theorem addDigit_foldl (v : List ℕ) {num placeVal : ℕ} (hn : num < UINT) (hp : placeVal < UINT) :
    v.foldl addDigit (num,placeVal) =
      ((num + placeVal * ofDigits 10 v) % UINT,placeVal * 10^v.length % UINT) := by
  induction v generalizing num placeVal with
  | nil => simp [Nat.mod_eq_of_lt hn,Nat.mod_eq_of_lt hp]
  | cons d v ih =>
    have hu : 0 < UINT := by decide
    rw [List.foldl_cons,addDigit,ih (Nat.mod_lt _ hu) (Nat.mod_lt _ hu),ofDigits_cons,DECIMAL]
    refine Prod.ext ?_ ?_
    · refine Nat.ModEq.add (Nat.mod_modEq _ _) ((Nat.mod_modEq _ _).mul_right _) |>.trans ?_
      rw [Nat.ModEq,show num + placeVal * (d + 10 * ofDigits 10 v) =
        num + d * placeVal + placeVal * 10 * ofDigits 10 v by ring]
    · refine ((Nat.mod_modEq _ _).mul_right _).trans ?_
      rw [Nat.ModEq,List.length_cons,pow_succ',Nat.mul_assoc]

theorem makeNum_eq (v : List ℕ) : makeNum v = ofDigits 10 v % UINT := by
  rw [makeNum,addDigit_foldl v (by decide) (by decide),Nat.zero_add,Nat.one_mul]

/-- breakNum and makeNum undo each other, on every unsigned number and on every vector of
digits without a leading zero whose value is one. -/
theorem split_join_inverse :
    (∀ num < UINT, makeNum (breakNum num []) = num) ∧
    ∀ v : List ℕ, (∀ d ∈ v, d < 10) → (∀ d, v.getLast? = some d → d ≠ 0) → ofDigits 10 v < UINT →
      breakNum (makeNum v) [] = v := by
  constructor
  · intro num hnum
    rw [breakNum_eq,List.nil_append,makeNum_eq,ofDigits_digits,Nat.mod_eq_of_lt hnum]
  · intro v hdigits hlast hvalue
    rw [makeNum_eq,Nat.mod_eq_of_lt hvalue,breakNum_eq,List.nil_append]
    apply digits_ofDigits 10 (by decide) v hdigits
    intro hne
    exact hlast _ (List.getLast?_eq_getLast_of_ne_nil hne)

/-- The greatest unsigned number, with ten digits. -/
theorem split_join_greatest :
    makeNum (breakNum 4294967295 []) = 4294967295 ∧
      breakNum (makeNum [5,9,2,7,6,9,4,9,2,4]) [] = [5,9,2,7,6,9,4,9,2,4] := by
  refine ⟨split_join_inverse.1 _ (by decide),split_join_inverse.2 _ (by decide) ?_ (by decide)⟩
  intro d hd
  cases hd
  decide

/-- placeVal has wrapped behind the tenth digit of the greatest unsigned number. -/
example : (breakNum 4294967295 []).foldl addDigit (0,1) = (4294967295,1410065408) := by decide

/-- The test on neighbours decides whether the whole vector is constant. -/
theorem adjacentFind_eq_nil {v : List ℕ} :
    adjacentFind (· != ·) v = [] ↔ ∀ x ∈ v, ∀ y ∈ v, x = y := by
  induction v with
  | nil => simp [adjacentFind]
  | cons x v ih =>
    cases v with
    | nil => simp [adjacentFind]
    | cons y v =>
      rw [adjacentFind]
      by_cases hxy : x = y
      · subst hxy
        rw [if_neg (by simp),ih]
        simp
      · rw [if_pos (by simpa using hxy)]
        simp only [reduceCtorEq,false_iff]
        exact fun h => hxy (h x (by simp) y (by simp))

theorem paddedDigits_eq (num : ℕ) :
    paddedDigits num = if (digits 10 num).length = 3 then digits 10 num ++ [0] else digits 10 num := by
  rw [paddedDigits,breakNum_eq,List.nil_append]

theorem paddedDigits_lt {num d : ℕ} (hd : d ∈ paddedDigits num) : d < 10 := by
  rw [paddedDigits_eq] at hd
  split at hd
  · rcases List.mem_append.mp hd with hd | hd
    · exact digits_lt_base (by decide) hd
    · rw [List.mem_singleton.mp hd]
      decide
  · exact digits_lt_base (by decide) hd

theorem paddedDigits_length (num : ℕ) : (paddedDigits num).length =
    if (digits 10 num).length = 3 then 4 else (digits 10 num).length := by
  rw [paddedDigits_eq]
  split
  · rename_i h
    simp [h]
  · rfl

theorem digits_length_of_bounds {num w : ℕ} (hl : 10^w ≤ num) (hu : num < 10^(w+1)) :
    (digits 10 num).length = w + 1 := by
  have h1 := (digits_length_le_iff (by decide) num).mpr hu
  have h2 := (lt_digits_length_iff (by decide) num).mpr hl
  omega

/-- The digits in the order that std::sort leaves them in. -/
def sortedDigits (num : ℕ) : List ℕ := (paddedDigits num).insertionSort (· ≥ ·)

theorem sortedDigits_pairwise (num : ℕ) : (sortedDigits num).Pairwise (· ≥ ·) :=
  List.pairwise_insertionSort _ _

theorem mem_sortedDigits {num d : ℕ} : d ∈ sortedDigits num ↔ d ∈ paddedDigits num :=
  List.mem_insertionSort _

theorem sortedDigits_length (num : ℕ) : (sortedDigits num).length = (paddedDigits num).length :=
  List.length_insertionSort _ _

/-- getAscDscNum does not exit. -/
def Accepted (num : ℕ) : Prop := ∃ x ∈ paddedDigits num, ∃ y ∈ paddedDigits num, x ≠ y

theorem getAscDscNum_accepted {num : ℕ} (h : Accepted num) :
    getAscDscNum num = .ok (ofDigits 10 (sortedDigits num) % UINT,
      ofDigits 10 (sortedDigits num).reverse % UINT) := by
  obtain ⟨x,hx,y,hy,hxy⟩ := h
  have hne : adjacentFind (· != ·) (paddedDigits num) ≠ [] :=
    fun h => hxy (adjacentFind_eq_nil.mp h x hx y hy)
  rw [getAscDscNum,if_neg hne,← makeNum_eq,← makeNum_eq]
  rfl

theorem getAscDscNum_rejected {num : ℕ} (h : ¬ Accepted num) :
    getAscDscNum num = .error equalDigitsMessage := by
  have heq : adjacentFind (· != ·) (paddedDigits num) = [] := by
    refine adjacentFind_eq_nil.mpr fun x hx y hy => ?_
    by_contra hxy
    exact h ⟨x,hx,y,hy,hxy⟩
  rw [getAscDscNum,if_pos heq]

/-- The value of l_num after one pass of the loop, unless getAscDscNum exits. -/
def nextNum (l_num : ℕ) : Option ℕ :=
  match getAscDscNum l_num with
  | .ok (ascNum,dscNum) => some ((dscNum + (UINT - ascNum)) % UINT)
  | .error _ => none

theorem nextNum_rejected {num : ℕ} (h : ¬ Accepted num) : nextNum num = none := by
  rw [nextNum,getAscDscNum_rejected h]

theorem accepted_of_nextNum {num l : ℕ} (h : nextNum num = some l) : Accepted num := by
  by_contra hr
  rw [nextNum_rejected hr] at h
  cases h

theorem paddedDigits_length_le {num : ℕ} (hn : num < 10^9) : (paddedDigits num).length ≤ 9 := by
  have hlen := (digits_length_le_iff (by decide) num).mpr hn
  rw [paddedDigits_length]
  split
  · decide
  · exact hlen

theorem sortedDigits_value_lt (num : ℕ) : ofDigits 10 (sortedDigits num).reverse <
    10^(paddedDigits num).length := by
  rw [← sortedDigits_length,← List.length_reverse]
  refine ofDigits_lt_base_pow_length (by decide) fun d hd => ?_
  exact paddedDigits_lt (mem_sortedDigits.mp (List.mem_reverse.mp hd))

/-- Up to nine digits the greatest arrangement fits into unsigned. -/
theorem arrangement_fits {num : ℕ} (hn : num < 10^9) :
    ofDigits 10 (sortedDigits num).reverse < UINT := by
  refine (sortedDigits_value_lt num).trans ?_
  exact (Nat.pow_le_pow_right (by decide) (paddedDigits_length_le hn)).trans_lt (by decide)

/-- One pass of the loop subtracts within the range of unsigned, whatever the width. -/
theorem nextNum_gap {num g : ℕ} (h : Accepted num)
    (hg : ofDigits 10 (sortedDigits num).reverse = ofDigits 10 (sortedDigits num) + g) :
    nextNum num = some (g % UINT) := by
  rw [nextNum,getAscDscNum_accepted h,hg]
  simp only [Option.some.injEq,UINT]
  omega

/-- Up to nine digits nothing wraps: l_num becomes the difference of the two arrangements. -/
theorem nextNum_accepted {num : ℕ} (hn : num < 10^9) (h : Accepted num) :
    nextNum num = some
      (ofDigits 10 (sortedDigits num).reverse - ofDigits 10 (sortedDigits num)) := by
  have hle : ofDigits 10 (sortedDigits num) ≤ ofDigits 10 (sortedDigits num).reverse :=
    ofDigits_le_reverse (by decide) (sortedDigits_pairwise num)
  have hlt := arrangement_fits hn
  rw [nextNum_gap h (Nat.add_sub_of_le hle).symm,Nat.mod_eq_of_lt ((Nat.sub_le _ _).trans_lt hlt)]

theorem nextNum_sorted {num l : ℕ} (hn : num < 10^9) (h : nextNum num = some l) :
    ∃ v : List ℕ, v.length = (paddedDigits num).length ∧ v.Pairwise (· ≥ ·) ∧ (∀ d ∈ v, d < 10) ∧
      (∃ x ∈ v, ∃ y ∈ v, x ≠ y) ∧ l = ofDigits 10 v.reverse - ofDigits 10 v := by
  have hacc := accepted_of_nextNum h
  rw [nextNum_accepted hn hacc] at h
  obtain ⟨x,hx,y,hy,hxy⟩ := hacc
  refine ⟨sortedDigits num,sortedDigits_length num,sortedDigits_pairwise num,?_,?_,?_⟩
  · exact fun d hd => paddedDigits_lt (mem_sortedDigits.mp hd)
  · exact ⟨x,mem_sortedDigits.mpr hx,y,mem_sortedDigits.mpr hy,hxy⟩
  · exact (Option.some.inj h).symm

theorem nextNum_bounds {num l : ℕ} (hn : num < 10^9) (h : nextNum num = some l) :
    10^((paddedDigits num).length-1) - 1 ≤ l ∧ l < 10^(paddedDigits num).length := by
  obtain ⟨v,hlen,hs,hd,⟨x,hx,y,hy,hxy⟩,rfl⟩ := nextNum_sorted hn h
  have hgap := ofDigits_gap (b := 10) (by decide) hs hx hy hxy
  have hlt : ofDigits 10 v.reverse < 10^v.reverse.length :=
    ofDigits_lt_base_pow_length (by decide) fun d h => hd d (List.mem_reverse.mp h)
  rw [List.length_reverse] at hlt
  rw [← hlen]
  omega

/-- Four digits leave one of the 54 numbers 999x+90y. -/
theorem nextNum_four {num l : ℕ} (hn : num < 10^9) (hw : (paddedDigits num).length = 4)
    (h : nextNum num = some l) : ∃ x y, 1 ≤ x ∧ x ≤ 9 ∧ y ≤ x ∧ l = 999*x + 90*y := by
  obtain ⟨v,hlen,hs,hd,⟨x,hx,y,hy,hxy⟩,rfl⟩ := nextNum_sorted hn h
  obtain ⟨a,m,e,rfl,hae⟩ := ends_of_ne hs hx hy hxy
  obtain ⟨b,c,rfl⟩ : ∃ b c, m = [b,c] := List.length_eq_two.mp (by simpa [hw] using hlen)
  have ha := hd a (by simp)
  simp only [List.cons_append,List.nil_append,List.pairwise_cons,List.mem_cons,List.not_mem_nil,
    or_false,forall_eq_or_imp,forall_eq] at hs
  refine ⟨a-e,b-c,by omega,by omega,by omega,?_⟩
  simp only [List.reverse_cons,List.reverse_nil,List.nil_append,List.cons_append,ofDigits_cons,ofDigits_nil]
  omega

end MyCpp.Kaprekar
