import MyCpp.Library.DigitReversal

/-! The value a descending digit list gains by reversal depends on the differences of the
digits equally far from its two ends alone. Few differences mean a nearly constant list. -/
namespace MyCpp.DigitReversal
open Nat
variable {b : ℕ}

/-- The differences of the digits of a list equally far from its ends, outermost first. -/
inductive Gaps : List ℕ → List ℕ → Prop where
  | nil : Gaps [] []
  | singleton (x : ℕ) : Gaps [x] []
  | ends {x y : ℕ} {m ds : List ℕ} (h : Gaps m ds) (hxy : y ≤ x) : Gaps (x :: (m ++ [y])) ((x-y) :: ds)

/-- The value of the differences of a list of `w` digits. -/
def gapOf (b : ℕ) : ℕ → List ℕ → ℕ
  | _, [] => 0
  | w, d :: ds => d * (b^(w-1) - 1) + b * gapOf b (w-2) ds

theorem exists_gaps {v : List ℕ} (h : v.Pairwise (· ≥ ·)) : ∃ ds, Gaps v ds := by
  induction v using List.bidirectionalRec with
  | nil => exact ⟨[],.nil⟩
  | singleton x => exact ⟨[],.singleton x⟩
  | cons_append x m y ih =>
    obtain ⟨ds,hds⟩ := ih (descending_middle h)
    have hxy : y ≤ x := (ends_bounds h (by simp : y ∈ x :: (m ++ [y]))).2
    exact ⟨(x-y) :: ds,hds.ends hxy⟩

namespace Gaps
variable {v ds : List ℕ}

theorem length (h : Gaps v ds) : ds.length = v.length / 2 := by
  induction h with
  | nil => rfl
  | singleton x => simp
  | ends h hxy ih =>
    simp only [List.length_cons,List.length_append,List.length_nil,ih]
    omega

theorem value (hb : 1 ≤ b) (h : Gaps v ds) :
    ofDigits b v.reverse = ofDigits b v + gapOf b v.length ds := by
  induction h with
  | nil => rfl
  | singleton x => simp [gapOf]
  | @ends x y m ds h hxy ih =>
    have hlen : (x :: (m ++ [y])).length = m.length + 2 := by simp
    rw [ends_gap hb hxy ih,gapOf,hlen]
    rfl

theorem exists_difference (h : Gaps v ds) {d : ℕ} (hd : d ∈ ds) : ∃ p ∈ v, ∃ q ∈ v, d = p - q := by
  induction h with
  | nil => cases hd
  | singleton x => cases hd
  | @ends x y m ds h hxy ih =>
    rcases List.mem_cons.mp hd with rfl | hd
    · exact ⟨x,by simp,y,by simp,rfl⟩
    · obtain ⟨p,hp,q,hq,he⟩ := ih hd
      exact ⟨p,by simp [hp],q,by simp [hq],he⟩

theorem descending (h : Gaps v ds) (hv : v.Pairwise (· ≥ ·)) : ds.Pairwise (· ≥ ·) := by
  induction h with
  | nil => exact .nil
  | singleton x => exact .nil
  | @ends x y m ds h hxy ih =>
    refine .cons ?_ (ih (descending_middle hv))
    intro d hd
    obtain ⟨p,hp,q,hq,rfl⟩ := h.exists_difference hd
    have hp := ends_bounds hv (z := p) (by simp [hp])
    have hq := ends_bounds hv (z := q) (by simp [hq])
    omega

theorem constant (h : Gaps v ds) (hv : v.Pairwise (· ≥ ·)) (hds : ds.sum = 0) :
    ∀ p ∈ v, ∀ q ∈ v, p = q := by
  intro p hp q hq
  cases h with
  | nil => cases hp
  | singleton x => rw [List.mem_singleton.mp hp,List.mem_singleton.mp hq]
  | ends h hxy =>
    have hp := ends_bounds hv hp
    have hq := ends_bounds hv hq
    rw [List.sum_cons] at hds
    omega

end Gaps

/-- No two entries differ by more than one, and all of them but at most one are the same. -/
def NearlyConstant (v : List ℕ) : Prop :=
  (∀ x ∈ v, ∀ y ∈ v, x ≤ y + 1) ∧ ∃ d ∈ v, v.countP (· ≠ d) ≤ 1

instance (v : List ℕ) : Decidable (NearlyConstant v) :=
  inferInstanceAs (Decidable ((∀ x ∈ v, ∀ y ∈ v, x ≤ y + 1) ∧ ∃ d ∈ v, v.countP (· ≠ d) ≤ 1))

theorem NearlyConstant.perm {v v' : List ℕ} (h : v.Perm v') (hn : NearlyConstant v) :
    NearlyConstant v' := by
  obtain ⟨hclose,d,hd,hcount⟩ := hn
  refine ⟨?_,d,h.mem_iff.mp hd,by rwa [← h.countP_eq]⟩
  intro x hx y hy
  exact hclose x (h.mem_iff.mpr hx) y (h.mem_iff.mpr hy)

theorem nearlyConstant_of_constant {v : List ℕ} (hne : v ≠ []) (h : ∀ p ∈ v, ∀ q ∈ v, p = q) :
    NearlyConstant v := by
  obtain ⟨d,hd⟩ := List.exists_mem_of_ne_nil v hne
  refine ⟨fun x hx y hy => (h x hx y hy).trans_le (Nat.le_succ y),d,hd,?_⟩
  rw [List.countP_eq_zero.mpr (by simpa using fun x hx => h x hx d hd)]
  exact Nat.zero_le _

theorem nearlyConstant_ends {y c : ℕ} {m : List ℕ} (hm : ∀ q ∈ m, q = c) (hc : c = y ∨ c = y + 1) :
    NearlyConstant ((y+1) :: (m ++ [y])) := by
  have hmem (z : ℕ) (hz : z ∈ (y+1) :: (m ++ [y])) : z = y ∨ z = y + 1 := by
    simp only [List.mem_cons,List.mem_append,List.not_mem_nil,or_false] at hz
    rcases hz with hz | hz | hz
    · exact .inr hz
    · rwa [hm z hz]
    · exact .inl hz
  have hcount : m.countP (· ≠ c) = 0 := List.countP_eq_zero.mpr (by simpa using hm)
  refine ⟨?_,c,?_,?_⟩
  · intro p hp q hq
    have hp := hmem p hp
    have hq := hmem q hq
    omega
  · rcases hc with rfl | rfl <;> simp
  · rw [List.countP_cons,List.countP_append,hcount,List.countP_singleton]
    rcases hc with rfl | rfl <;> simp

/-- Differences that add up to at most one leave one entry apart from the others. -/
theorem Gaps.nearlyConstant {v ds : List ℕ} (h : Gaps v ds) (hv : v.Pairwise (· ≥ ·)) (hne : v ≠ [])
    (hds : ds.sum ≤ 1) : NearlyConstant v := by
  cases h with
  | nil => exact absurd rfl hne
  | singleton x => exact nearlyConstant_of_constant hne (by simp)
  | @ends x y m ds h hxy =>
    rw [List.sum_cons] at hds
    by_cases he : x = y
    · refine nearlyConstant_of_constant hne fun p hp q hq => ?_
      have hp := ends_bounds hv hp
      have hq := ends_bounds hv hq
      omega
    · obtain rfl : x = y + 1 := by omega
      have hm := h.constant (descending_middle hv) (by omega)
      cases m with
      | nil => exact nearlyConstant_ends (c := y) (by simp) (.inl rfl)
      | cons c m =>
        have hc := ends_bounds hv (z := c) (by simp)
        exact nearlyConstant_ends (fun q hq => hm q hq c (by simp)) (by omega)

/-- Reversing a nearly constant descending list that is not constant adds the place value of
its last digit, less one. -/
theorem NearlyConstant.gap (hb : 1 ≤ b) {v : List ℕ} (hn : NearlyConstant v) (hv : v.Pairwise (· ≥ ·))
    {p q : ℕ} (hp : p ∈ v) (hq : q ∈ v) (hpq : p ≠ q) :
    ofDigits b v.reverse = ofDigits b v + (b^(v.length-1) - 1) := by
  obtain ⟨x,m,y,rfl,hxy⟩ := ends_of_ne hv hp hq hpq
  obtain ⟨hclose,c,_,hcount⟩ := hn
  obtain rfl : x = y + 1 := Nat.le_antisymm (hclose x (by simp) y (by simp)) hxy
  rw [List.countP_cons,List.countP_append,List.countP_singleton] at hcount
  have hm : m.countP (· ≠ c) = 0 := by
    simp only [ne_eq,decide_eq_true_eq] at hcount ⊢
    split_ifs at hcount with hyc hxc
    all_goals omega
  have hrev : m.reverse = m := by
    have hrep : m = List.replicate m.length c :=
      List.eq_replicate_of_mem (by simpa using hm)
    rw [hrep,List.reverse_replicate]
  have hlen : ((y+1) :: (m ++ [y])).length - 1 = m.length + 1 := by simp
  rw [ends_gap (g := 0) hb (Nat.le_succ y) (by rw [hrev,Nat.add_zero]),hlen]
  simp

/-- One of the first `k` decimal digits of `n` is more than one away from `x`. -/
def farDigit (x : ℕ) : ℕ → ℕ → Bool
  | 0, _ => false
  | k + 1, n => n != 0 && (x + 1 < n % 10 || n % 10 + 1 < x || farDigit x k (n/10))

theorem exists_farDigit {x k n : ℕ} (h : farDigit x k n = true) :
    ∃ y ∈ digits 10 n, x + 1 < y ∨ y + 1 < x := by
  induction k generalizing n with
  | zero => cases h
  | succ k ih =>
    simp only [farDigit,Bool.and_eq_true,bne_iff_ne,Bool.or_eq_true,decide_eq_true_eq] at h
    obtain ⟨hn,h⟩ := h
    rw [digits_def' (by decide) (Nat.pos_of_ne_zero hn)]
    rcases h with h | h
    · exact ⟨n%10,by simp,h⟩
    · obtain ⟨y,hy,hfar⟩ := ih h
      exact ⟨y,List.mem_cons_of_mem _ hy,hfar⟩

/-- A digit away from the last one keeps a number from being nearly constant. -/
theorem not_nearlyConstant_of_farDigit {k n : ℕ} (h : farDigit (n%10) k (n/10) = true) :
    ¬ NearlyConstant (digits 10 n) := by
  rintro ⟨hclose,_⟩
  obtain ⟨y,hy,hfar⟩ := exists_farDigit h
  have hn : 0 < n := by
    apply Nat.pos_of_ne_zero
    rintro rfl
    simp at hy
  rw [digits_def' (by decide) hn] at hclose
  have hlast := hclose (n%10) List.mem_cons_self y (List.mem_cons_of_mem _ hy)
  have hother := hclose y (List.mem_cons_of_mem _ hy) (n%10) List.mem_cons_self
  omega

/-- The descending lists of a length whose entries are at most `bound`. -/
def descendingLists : ℕ → ℕ → List (List ℕ)
  | 0, _ => [[]]
  | k + 1, bound => (List.range (bound+1)).flatMap fun d => (descendingLists k d).map (d :: ·)

theorem mem_descendingLists {bound : ℕ} {ds : List ℕ} (h : ds.Pairwise (· ≥ ·))
    (hb : ∀ d ∈ ds, d ≤ bound) : ds ∈ descendingLists ds.length bound := by
  induction ds generalizing bound with
  | nil => exact List.mem_singleton.mpr rfl
  | cons d ds ih =>
    obtain ⟨hd,hds⟩ := List.pairwise_cons.mp h
    refine List.mem_flatMap.mpr ⟨d,?_,List.mem_map.mpr ⟨ds,ih hds hd,rfl⟩⟩
    have hdb := hb d (by simp)
    rw [List.mem_range]
    omega

end MyCpp.DigitReversal
