import MyCpp.Kaprekar.KaprekarDigits

/-! Runs of KaprekarIterations as orbits of one subtraction. Three and four digits end in
6174; every other width below ten digits stays away from it for ever. -/
namespace MyCpp.Kaprekar
open Nat DigitReversal

/-- At the loop test the two numbers belong to l_num; only 6174 lets the function return. -/
structure Coherent (r : Run) : Prop where
  called : r.pc = .whileTest → getAscDscNum r.l_num = .ok (r.ascNum,r.dscNum)
  done : ∀ k, r.pc = .returned k → r.l_num = 6174

/-- A statement keeps l_num or moves it along its orbit. -/
theorem Coherent.step {r : Run} (h : Coherent r) : Coherent (step r) ∧
    ((Kaprekar.step r).l_num = r.l_num ∨ nextNum r.l_num = some (Kaprekar.step r).l_num) := by
  obtain ⟨pc,num_iter,l_num,ascNum,dscNum,out⟩ := r
  cases pc with
  | getAscDscNum =>
    cases hg : getAscDscNum l_num with
    | ok p =>
      rw [Kaprekar.step,hg]
      exact ⟨⟨fun _ => hg,nofun⟩,.inl rfl⟩
    | error line =>
      rw [Kaprekar.step,hg]
      exact ⟨⟨nofun,nofun⟩,.inl rfl⟩
  | whileTest =>
    have hg := h.called rfl
    by_cases hl : l_num = 6174
    · subst hl
      exact ⟨⟨nofun,fun k _ => rfl⟩,.inl rfl⟩
    · rw [Kaprekar.step,if_pos hl]
      refine ⟨⟨nofun,nofun⟩,.inr ?_⟩
      rw [nextNum,hg]
      rfl
  | returned k => exact ⟨h,.inl rfl⟩
  | exited status => exact ⟨h,.inl rfl⟩

theorem KaprekarIterations_succ (num n : ℕ) :
    KaprekarIterations num (n+1) = step (KaprekarIterations num n) :=
  Function.iterate_succ_apply' _ _ _

/-- A set of numbers closed under the subtraction holds every l_num of a run. -/
theorem run_stays {P : ℕ → Prop} (hP : ∀ l m, P l → nextNum l = some m → P m) {num : ℕ} (h : P num)
    (n : ℕ) : Coherent (KaprekarIterations num n) ∧ P (KaprekarIterations num n).l_num := by
  induction n with
  | zero => exact ⟨⟨nofun,nofun⟩,h⟩
  | succ n ih =>
    obtain ⟨hc,hl⟩ := ih
    obtain ⟨hc',he | hm⟩ := hc.step
    · rw [KaprekarIterations_succ,he]
      exact ⟨hc',hl⟩
    · rw [KaprekarIterations_succ]
      exact ⟨hc',hP _ _ hl hm⟩

def Returns (num k : ℕ) : Prop := ∃ n, (KaprekarIterations num n).pc = .returned k

/-- A run through a closed set without 6174 never meets it and never returns. -/
theorem never_reached {P : ℕ → Prop} (hP : ∀ l m, P l → nextNum l = some m → P m) {num : ℕ} (h : P num)
    (hk : ¬ P 6174) : (∀ n, (KaprekarIterations num n).l_num ≠ 6174) ∧ ∀ k, ¬ Returns num k := by
  have hne (n : ℕ) : (KaprekarIterations num n).l_num ≠ 6174 := by
    intro he
    have hl := (run_stays hP h n).2
    rw [he] at hl
    exact hk hl
  refine ⟨hne,?_⟩
  rintro k ⟨n,hn⟩
  exact hne n ((run_stays hP h n).1.done k hn)

/-- Passes of the loop until l_num is 6174, looked for up to a bound. -/
def distance : ℕ → ℕ → Option ℕ
  | 0, l => if l = 6174 then some 0 else none
  | bound + 1, l => if l = 6174 then some 0 else ((nextNum l).bind (distance bound)).map (· + 1)

theorem distance_le {bound l d : ℕ} (h : distance bound l = some d) : d ≤ bound := by
  induction bound generalizing l d with
  | zero =>
    rw [distance,Option.ite_none_right_eq_some] at h
    exact (Option.some.inj h.2).ge
  | succ bound ih =>
    rw [distance] at h
    split at h
    · cases h
      exact Nat.zero_le _
    · obtain ⟨e,he,rfl⟩ := Option.map_eq_some_iff.mp h
      obtain ⟨m,_,hm⟩ := Option.bind_eq_some_iff.mp he
      exact Nat.succ_le_succ (ih hm)

private theorem returns_at {r : Run} (hpc : r.pc = .getAscDscNum) (hl : r.l_num = 6174) :
    (step^[2] r).pc = .returned r.num_iter := by
  have hg : getAscDscNum 6174 = .ok (1467,7641) := rfl
  simp [step,hpc,hl,hg]

theorem pass {r : Run} (hpc : r.pc = .getAscDscNum) (hl : r.l_num ≠ 6174) {m : ℕ}
    (hm : nextNum r.l_num = some m) : (step^[2] r).pc = .getAscDscNum ∧ (step^[2] r).l_num = m ∧
      (step^[2] r).num_iter = (r.num_iter + 1) % UINT := by
  obtain ⟨pc,num_iter,l_num,ascNum,dscNum,out⟩ := r
  cases hpc
  cases hg : getAscDscNum l_num with
  | error line => simp [nextNum,hg] at hm
  | ok p =>
    simp only [nextNum,hg,Option.some.injEq] at hm
    simp only [Function.iterate_succ,Function.iterate_zero,Function.comp_apply,step,hg,id_eq]
    rw [if_pos hl]
    exact ⟨rfl,hm,rfl⟩

theorem returns_of_distance {bound d : ℕ} {r : Run} (hpc : r.pc = .getAscDscNum)
    (h : distance bound r.l_num = some d) (hd : r.num_iter + bound < UINT) :
    ∃ n, (step^[n] r).pc = .returned (r.num_iter + d) := by
  induction bound generalizing r d with
  | zero =>
    rw [distance,Option.ite_none_right_eq_some] at h
    cases h.2
    exact ⟨2,returns_at hpc h.1⟩
  | succ bound ih =>
    rw [distance] at h
    split at h
    · rename_i hl
      cases h
      exact ⟨2,returns_at hpc hl⟩
    · rename_i hl
      obtain ⟨e,he,rfl⟩ := Option.map_eq_some_iff.mp h
      obtain ⟨m,hm,he⟩ := Option.bind_eq_some_iff.mp he
      obtain ⟨hpc',hl',hi⟩ := pass hpc hl hm
      rw [Nat.mod_eq_of_lt (by omega)] at hi
      obtain ⟨n,hn⟩ := ih (r := step^[2] r) hpc' (by rw [hl']; exact he) (by omega)
      refine ⟨n+2,?_⟩
      rw [Function.iterate_add_apply,hn,hi,Nat.add_assoc,Nat.add_comm 1 e]

theorem Returns.unique {num j k : ℕ} (hj : Returns num j) (hk : Returns num k) : j = k := by
  have stays (n i : ℕ) (h : (KaprekarIterations num n).pc = .returned i) (m : ℕ) :
      (KaprekarIterations num (n+m)).pc = .returned i := by
    induction m with
    | zero => exact h
    | succ m ih =>
      rw [← Nat.add_assoc,KaprekarIterations_succ,step]
      simp only [ih]
  obtain ⟨n,hn⟩ := hj
  obtain ⟨m,hm⟩ := hk
  have hnm := stays n j hn m
  rw [Nat.add_comm,stays m k hm n] at hnm
  cases hnm
  rfl

theorem digits_nines (k : ℕ) : digits 10 (10^k - 1) = List.replicate k 9 := by
  have hv : ofDigits 10 (List.replicate k 9) + 1 = 10^k := by
    induction k with
    | zero => rfl
    | succ k ih =>
      rw [List.replicate_succ,ofDigits_cons,pow_succ]
      omega
  rw [show 10^k - 1 = ofDigits 10 (List.replicate k 9) by omega]
  refine digits_ofDigits 10 (by decide) _ ?_ ?_
  · intro d hd
    rw [(List.mem_replicate.mp hd).2]
    decide
  · intro hne
    rw [List.getLast_replicate]
    decide

theorem not_accepted_replicate {num k d : ℕ} (h : digits 10 num = List.replicate k d) (hk : k ≠ 3) :
    ¬ Accepted num := by
  rintro ⟨x,hx,y,hy,hxy⟩
  rw [paddedDigits_eq,h,if_neg (by simpa using hk)] at hx hy
  exact hxy ((List.mem_replicate.mp hx).2.trans (List.mem_replicate.mp hy).2.symm)

theorem small_stays {l m : ℕ} (hl : l < 100) (h : nextNum l = some m) : m < 100 := by
  have hlen : (digits 10 l).length ≤ 2 := (digits_length_le_iff (by decide) l).mpr hl
  have hm := (nextNum_bounds (by omega) h).2
  rw [paddedDigits_length,if_neg (by omega)] at hm
  exact hm.trans_le (Nat.pow_le_pow_right (by decide) hlen)

/-- From five digits on the run keeps its width; the one smaller value is refused. -/
theorem wide_stays {w l m : ℕ} (hw : 4 ≤ w) (hw' : w ≤ 8) (hl : 10^w - 1 ≤ l ∧ l < 10^(w+1))
    (h : nextNum l = some m) : 10^w - 1 ≤ m ∧ m < 10^(w+1) := by
  have hn : l < 10^9 := hl.2.trans_le (Nat.pow_le_pow_right (by decide) (by omega))
  by_cases hlow : 10^w ≤ l
  · have hm := nextNum_bounds hn h
    rwa [paddedDigits_length,digits_length_of_bounds hlow hl.2,if_neg (by omega)] at hm
  · obtain rfl : l = 10^w - 1 := by omega
    exact absurd (accepted_of_nextNum h) (not_accepted_replicate (digits_nines w) (by omega))

def FourEqualDigits (num : ℕ) : Prop := ∃ d, digits 10 num = List.replicate 4 d

theorem padded_four {num : ℕ} (hl : 100 ≤ num) (hu : num ≤ 9999) : (paddedDigits num).length = 4 := by
  rw [paddedDigits_length]
  by_cases h : num < 1000
  · rw [if_pos (digits_length_of_bounds (w := 2) hl h)]
  · have hlen : (digits 10 num).length = 3 + 1 := digits_length_of_bounds (by omega) (by omega)
    rw [if_neg (by omega),hlen]

theorem accepted_four {num : ℕ} (hl : 100 ≤ num) (hu : num ≤ 9999) (hne : ¬ FourEqualDigits num) :
    Accepted num := by
  by_contra hr
  have hall : ∀ x ∈ paddedDigits num, ∀ y ∈ paddedDigits num, x = y := by
    intro x hx y hy
    by_contra hxy
    exact hr ⟨x,hx,y,hy,hxy⟩
  rw [paddedDigits_eq] at hall
  by_cases h : num < 1000
  · rw [if_pos (digits_length_of_bounds (w := 2) hl h)] at hall
    have hnz : num ≠ 0 := by omega
    have hmem := List.getLast_mem (digits_ne_nil_iff_ne_zero (b := 10).mpr hnz)
    exact getLast_digit_ne_zero 10 hnz (hall _ (List.mem_append_left _ hmem) 0 (by simp))
  · have hlen : (digits 10 num).length = 3 + 1 := digits_length_of_bounds (by omega) (by omega)
    rw [if_neg (by omega)] at hall
    obtain ⟨d,hd⟩ := List.exists_mem_of_length_pos (show 0 < (digits 10 num).length by omega)
    refine hne ⟨d,List.eq_replicate_iff.mpr ⟨hlen,fun x hx => hall x hx d hd⟩⟩

/-- From each of the 54 differences six passes are enough. -/
theorem distance_differences : ∀ x ≤ 9, 1 ≤ x → ∀ y ≤ x, (distance 6 (999*x + 90*y)).isSome := by
  decide +kernel

theorem distance_four {num : ℕ} (hl : 100 ≤ num) (hu : num ≤ 9999) (hne : ¬ FourEqualDigits num) :
    ∃ d, distance 7 num = some d := by
  by_cases hk : num = 6174
  · exact ⟨0,by rw [hk]; rfl⟩
  have hn : num < 10^9 := by omega
  have hnext := nextNum_accepted hn (accepted_four hl hu hne)
  obtain ⟨x,y,h1,h9,hxy,he⟩ := nextNum_four hn (padded_four hl hu) hnext
  rw [he] at hnext
  obtain ⟨d,hd⟩ := Option.isSome_iff_exists.mp (distance_differences x h9 h1 y hxy)
  refine ⟨d+1,?_⟩
  rw [distance,if_neg hk,hnext,Option.bind_some,hd,Option.map_some]

theorem returns_four {num : ℕ} (hl : 100 ≤ num) (hu : num ≤ 9999) (hne : ¬ FourEqualDigits num) :
    ∃ d ≤ 7, Returns num d := by
  obtain ⟨d,hd⟩ := distance_four hl hu hne
  have hbound : 0 + 7 < UINT := by decide
  obtain ⟨n,hn⟩ := returns_of_distance (r := ⟨.getAscDscNum,0,num,0,0,[]⟩) rfl hd hbound
  exact ⟨d,distance_le hd,n,by rw [KaprekarIterations,hn,Nat.zero_add]⟩

/-- Every width but three and four, and the four-digit repdigits, miss 6174. -/
theorem away {num : ℕ} (hnum : num < 10^9)
    (h : ¬ (100 ≤ num ∧ num ≤ 9999 ∧ ¬ FourEqualDigits num)) :
    (∀ n, (KaprekarIterations num n).l_num ≠ 6174) ∧ ∀ k, ¬ Returns num k := by
  by_cases hsmall : num < 100
  · exact never_reached (P := fun l => l < 100) (fun l m => small_stays) hsmall (by decide)
  by_cases hfour : num ≤ 9999
  · obtain ⟨d,hd⟩ : FourEqualDigits num := by
      by_contra hne
      exact h ⟨by omega,hfour,hne⟩
    have hstop : nextNum num = none := nextNum_rejected (not_accepted_replicate hd (by decide))
    refine never_reached (P := fun l => l = num) ?_ rfl ?_
    · intro l m hl hm
      rw [hl,hstop] at hm
      cases hm
    · rintro rfl
      have hsix : digits 10 6174 = [4,7,1,6] := by simp
      rw [hsix] at hd
      simp [List.replicate_succ] at hd
      omega
  · have h4 : 4 < (digits 10 num).length := (lt_digits_length_iff (by decide) num).mpr (by omega)
    have h9 : (digits 10 num).length ≤ 9 := (digits_length_le_iff (by decide) num).mpr hnum
    obtain ⟨w,hw⟩ : ∃ w, (digits 10 num).length = w + 1 := Nat.exists_eq_succ_of_ne_zero (by omega)
    have hlow : 10^w ≤ num := (lt_digits_length_iff (by decide) num).mp (by omega)
    have hup : num < 10^(w+1) := (digits_length_le_iff (by decide) num).mp (by omega)
    have hw4 : 4 ≤ w := by omega
    have hw8 : w ≤ 8 := by omega
    refine never_reached (P := fun l => 10^w - 1 ≤ l ∧ l < 10^(w+1))
      (fun l m hl hm => wide_stays hw4 hw8 hl hm) ⟨by omega,hup⟩ ?_
    rintro ⟨hge,_⟩
    have hpow : 10^4 ≤ 10^w := Nat.pow_le_pow_right (by decide) hw4
    omega

/-- Of the numbers below ten digits exactly the three- and four-digit ones, repdigits of
four digits apart, reach 6174, in at most seven passes. -/
theorem kaprekar_reached_iff (num : ℕ) (hnum : num < 10^9) :
    ((∃ k, Returns num k) ↔ 100 ≤ num ∧ num ≤ 9999 ∧ ¬ FourEqualDigits num) ∧
    (∀ k, Returns num k → k ≤ 7) ∧
    (¬ (100 ≤ num ∧ num ≤ 9999 ∧ ¬ FourEqualDigits num) →
      ∀ n, (KaprekarIterations num n).l_num ≠ 6174) := by
  by_cases hgood : 100 ≤ num ∧ num ≤ 9999 ∧ ¬ FourEqualDigits num
  · obtain ⟨d,hd,hret⟩ := returns_four hgood.1 hgood.2.1 hgood.2.2
    refine ⟨⟨fun _ => hgood,fun _ => ⟨d,hret⟩⟩,?_,fun h => absurd hgood h⟩
    intro k hk
    rw [hk.unique hret]
    exact hd
  · obtain ⟨haway,hnever⟩ := away hnum hgood
    refine ⟨⟨?_,fun h => absurd h hgood⟩,fun k hk => absurd hk (hnever k),fun _ => haway⟩
    rintro ⟨k,hk⟩
    exact absurd hk (hnever k)

/-- The width decides: 9831 returns, and 98310 does not. -/
theorem kaprekar_reached_iff_widths : (∃ k, Returns 9831 k) ∧
    ∀ n, (KaprekarIterations 98310 n).l_num ≠ 6174 := by
  refine ⟨?_,?_⟩
  · refine (kaprekar_reached_iff 9831 (by decide)).1.mpr ⟨by decide,by decide,?_⟩
    rintro ⟨d,hd⟩
    have hdig : digits 10 9831 = [1,3,8,9] := by simp
    rw [hdig] at hd
    simp [List.replicate_succ] at hd
    omega
  · exact (kaprekar_reached_iff 98310 (by decide)).2.2 (by omega)

end MyCpp.Kaprekar
