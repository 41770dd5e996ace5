import MyCpp.Kaprekar.KaprekarConstant
import MyCpp.Library.DigitGaps

/-! Where KaprekarIterations ends. Below five digits every run meets 6174 or equal digits; from
five digits on only nearly constant numbers do, and all others stay among themselves. -/
namespace MyCpp.Kaprekar
open Nat DigitReversal

/-- The call has returned at 6174, or getAscDscNum has left the process with status 1. -/
def Finished (r : Run) : Prop := (∃ k, r.pc = .returned k ∧ r.l_num = 6174) ∨ r.pc = .exited 1

/-- Five digits or more, not nearly constant. -/
def Wandering (l : ℕ) : Prop := 10^4 ≤ l ∧ ¬ NearlyConstant (digits 10 l)

/-- The differences of five to ten digits, nearly constant ones apart, leave a number that
has a digit away from its last one, with two exceptions. -/
theorem gap_far : ∀ w ≤ 10, 5 ≤ w → ∀ ds ∈ descendingLists (w/2) 9, ds.sum ≤ 1 ∨
    10^4 ≤ gapOf 10 w ds % UINT ∧ (farDigit (gapOf 10 w ds % UINT % 10) 9 (gapOf 10 w ds % UINT / 10) ∨
      gapOf 10 w ds % UINT = 554445 ∨ gapOf 10 w ds % UINT = 55544445) := by
  decide +kernel

theorem digits_length_of_unsigned {num : ℕ} (hl : 10^4 ≤ num) (hu : num < UINT) :
    5 ≤ (digits 10 num).length ∧ (digits 10 num).length ≤ 10 := by
  have hten : num < 10^10 := hu.trans (by decide)
  exact ⟨(lt_digits_length_iff (by decide) num).mpr hl,(digits_length_le_iff (by decide) num).mpr hten⟩

theorem paddedDigits_wide {num : ℕ} (hl : 10^4 ≤ num) : paddedDigits num = digits 10 num := by
  have hlen : 4 < (digits 10 num).length := (lt_digits_length_iff (by decide) num).mpr hl
  rw [paddedDigits_eq,if_neg (by omega)]

theorem sortedDigits_perm {num : ℕ} (hl : 10^4 ≤ num) : (sortedDigits num).Perm (digits 10 num) := by
  rw [← paddedDigits_wide hl]
  exact List.perm_insertionSort _ _

theorem Wandering.accepted {num : ℕ} (h : Wandering num) : Accepted num := by
  by_contra hr
  have hall : ∀ p ∈ digits 10 num, ∀ q ∈ digits 10 num, p = q := by
    rw [← paddedDigits_wide h.1]
    intro p hp q hq
    by_contra hpq
    exact hr ⟨p,hp,q,hq,hpq⟩
  have hnz : num ≠ 0 := by
    rintro rfl
    exact absurd h.1 (by decide)
  exact h.2 (nearlyConstant_of_constant (digits_ne_nil_iff_ne_zero.mpr hnz) hall)

theorem Wandering.next {l m : ℕ} (h : Wandering l) (hl : l < UINT) (hm : nextNum l = some m) :
    Wandering m ∧ m < UINT := by
  have hs := sortedDigits_pairwise l
  have hperm := sortedDigits_perm h.1
  obtain ⟨h5,h10⟩ := digits_length_of_unsigned h.1 hl
  obtain ⟨ds,hds⟩ := exists_gaps hs
  rw [nextNum_gap h.accepted (hds.value (by decide)),hperm.length_eq] at hm
  cases hm
  refine ⟨?_,Nat.mod_lt _ (by decide)⟩
  have hmem : ds ∈ descendingLists ((digits 10 l).length / 2) 9 := by
    rw [← hperm.length_eq,← hds.length]
    refine mem_descendingLists (hds.descending hs) fun d hd => ?_
    obtain ⟨p,hp,q,_,rfl⟩ := hds.exists_difference hd
    have hp10 : p < 10 := digits_lt_base (by decide) (hperm.mem_iff.mp hp)
    omega
  rcases gap_far _ h10 h5 ds hmem with hsum | ⟨hlow,hfar⟩
  · refine absurd ((hds.nearlyConstant hs ?_ hsum).perm hperm) h.2
    intro hnil
    rw [← hperm.length_eq,hnil] at h5
    exact absurd h5 (by decide)
  · refine ⟨hlow,?_⟩
    rcases hfar with hfar | he | he
    · exact not_nearlyConstant_of_farDigit hfar
    · rw [he]
      decide +kernel
    · rw [he]
      decide +kernel

theorem exited_step {r : Run} (h : ∀ status, r.pc = .exited status → ¬ Accepted r.l_num) {status : ℕ}
    (hs : (step r).pc = .exited status) : ¬ Accepted (step r).l_num := by
  obtain ⟨pc,num_iter,l_num,ascNum,dscNum,out⟩ := r
  cases pc with
  | getAscDscNum =>
    by_cases hacc : Accepted l_num
    · rw [step,getAscDscNum_accepted hacc] at hs
      cases hs
    · rw [step,getAscDscNum_rejected hacc]
      exact hacc
  | whileTest =>
    by_cases hl : l_num = 6174
    · subst hl
      cases hs
    · rw [step,if_pos hl] at hs
      cases hs
  | returned k => cases hs
  | exited _ => exact h _ rfl

theorem exited_run (num n : ℕ) : ∀ status, (KaprekarIterations num n).pc = .exited status →
    ¬ Accepted (KaprekarIterations num n).l_num := by
  induction n with
  | zero => nofun
  | succ n ih =>
    intro status hs
    rw [KaprekarIterations_succ] at hs ⊢
    exact exited_step ih hs

theorem never_finishes {P : ℕ → Prop} (hP : ∀ l m, P l → nextNum l = some m → P m) (hk : ¬ P 6174)
    (hacc : ∀ l, P l → Accepted l) {num : ℕ} (h : P num) (n : ℕ) :
    ¬ Finished (KaprekarIterations num n) := by
  have hl := (run_stays hP h n).2
  rintro (⟨k,_,he⟩ | he)
  · rw [he] at hl
    exact hk hl
  · exact exited_run num n 1 he (hacc _ hl)

/-- Every run that is about to call getAscDscNum on `l` ends. -/
def Ends (l : ℕ) : Prop := ∀ r : Run, r.pc = .getAscDscNum → r.l_num = l → ∃ n, Finished (step^[n] r)

theorem ends_rejected {l : ℕ} (h : ¬ Accepted l) : Ends l := by
  intro r hpc hl
  refine ⟨1,.inr ?_⟩
  rw [Function.iterate_one,step,hpc]
  simp only [hl,getAscDscNum_rejected h]

theorem ends_next {l m : ℕ} (hne : l ≠ 6174) (h : nextNum l = some m) (hm : Ends m) : Ends l := by
  intro r hpc hl
  subst hl
  obtain ⟨hpc',hl',_⟩ := pass hpc hne h
  obtain ⟨n,hn⟩ := hm _ hpc' hl'
  refine ⟨n+2,?_⟩
  rwa [Function.iterate_add_apply]

/-- Within `bound` passes getAscDscNum exits. -/
def exits : ℕ → ℕ → Bool
  | 0, _ => false
  | bound + 1, l => l != 6174 && (nextNum l).all (exits bound)

theorem ends_of_exits {bound l : ℕ} (h : exits bound l = true) : Ends l := by
  induction bound generalizing l with
  | zero => cases h
  | succ bound ih =>
    rw [exits,Bool.and_eq_true,bne_iff_ne] at h
    obtain ⟨hne,hall⟩ := h
    cases hn : nextNum l with
    | none =>
      refine ends_rejected fun hacc => ?_
      rw [nextNum,getAscDscNum_accepted hacc] at hn
      cases hn
    | some m =>
      rw [hn,Option.all_some] at hall
      exact ends_next hne hn (ih hall)

theorem exits_small : ∀ l < 100, exits 6 l = true := by
  decide +kernel

/-- A nearly constant number of five digits or more leaves nines in one pass. -/
theorem ends_nearlyConstant {num : ℕ} (hl : 10^4 ≤ num) (hu : num < UINT)
    (h : NearlyConstant (digits 10 num)) : Ends num := by
  by_cases hacc : Accepted num
  · obtain ⟨p,hp,q,hq,hpq⟩ := hacc
    have hperm := sortedDigits_perm hl
    have hgap := (h.perm hperm.symm).gap (b := 10) (by decide) (sortedDigits_pairwise num)
      (mem_sortedDigits.mpr hp) (mem_sortedDigits.mpr hq) hpq
    obtain ⟨h5,h10⟩ := digits_length_of_unsigned hl hu
    rw [hperm.length_eq] at hgap
    have hnext := nextNum_gap ⟨p,hp,q,hq,hpq⟩ hgap
    have hlt : 10^((digits 10 num).length-1) - 1 < UINT := by
      have hpow : 10^((digits 10 num).length-1) ≤ 10^9 := Nat.pow_le_pow_right (by decide) (by omega)
      rw [UINT]
      omega
    rw [Nat.mod_eq_of_lt hlt] at hnext
    refine ends_next (by omega) hnext (ends_rejected ?_)
    exact not_accepted_replicate (digits_nines _) (by omega)
  · exact ends_rejected hacc

theorem finishes_below {num : ℕ} (h : num < 10^4) : ∃ n, Finished (KaprekarIterations num n) := by
  by_cases hsmall : num < 100
  · exact ends_of_exits (exits_small num hsmall) _ rfl rfl
  by_cases heq : FourEqualDigits num
  · obtain ⟨d,hd⟩ := heq
    exact ends_rejected (not_accepted_replicate hd (by decide)) _ rfl rfl
  · obtain ⟨k,_,n,hn⟩ := returns_four (by omega) (by omega) heq
    have hcoherent : Coherent (KaprekarIterations num n) :=
      (run_stays (P := fun _ => True) (fun _ _ _ _ => trivial) trivial n).1
    exact ⟨n,.inl ⟨k,hn,hcoherent.done k hn⟩⟩

/-- Exactly the numbers below five digits and the nearly constant ones let the call end. -/
theorem kaprekar_finishes_iff (num : ℕ) (hnum : num < UINT) :
    (∃ n, Finished (KaprekarIterations num n)) ↔ num < 10^4 ∨ NearlyConstant (digits 10 num) := by
  by_cases hlow : num < 10^4
  · exact ⟨fun _ => .inl hlow,fun _ => finishes_below hlow⟩
  by_cases hn : NearlyConstant (digits 10 num)
  · exact ⟨fun _ => .inr hn,fun _ => ends_nearlyConstant (by omega) hnum hn _ rfl rfl⟩
  · refine ⟨?_,fun h => (h.elim hlow hn).elim⟩
    rintro ⟨n,hfin⟩
    refine absurd hfin (never_finishes (P := fun l => Wandering l ∧ l < UINT) ?_ ?_ ?_ ⟨⟨by omega,hn⟩,hnum⟩ n)
    · exact fun l m h hm => h.1.next h.2 hm
    · exact fun h => absurd h.1.1 (by decide)
    · exact fun l h => h.1.accepted

/-- 65555 has one digit apart, and its call ends. -/
theorem kaprekar_finishes_iff_65555 : 65555 < UINT ∧ ∃ n, Finished (KaprekarIterations 65555 n) :=
  ⟨by decide,(kaprekar_finishes_iff 65555 (by decide)).mpr (.inr (by decide +kernel))⟩

/-- From 53955 the loop goes to 59994 and back, for ever. -/
theorem kaprekar_cycles : 53955 < UINT ∧ nextNum 53955 = some 59994 ∧ nextNum 59994 = some 53955 ∧
    ¬ ∃ n, Finished (KaprekarIterations 53955 n) := by
  have h1 : nextNum 53955 = some 59994 := by decide +kernel
  have h2 : nextNum 59994 = some 53955 := by decide +kernel
  refine ⟨by decide,h1,h2,?_⟩
  rintro ⟨n,hfin⟩
  refine absurd hfin (never_finishes (P := fun l => l = 53955 ∨ l = 59994) ?_ (by decide) ?_ (.inl rfl) n)
  · rintro l m (rfl | rfl) hm
    · rw [h1] at hm
      exact .inr (Option.some.inj hm).symm
    · rw [h2] at hm
      exact .inl (Option.some.inj hm).symm
  · rintro l (rfl | rfl)
    · exact accepted_of_nextNum h1
    · exact accepted_of_nextNum h2

end MyCpp.Kaprekar
