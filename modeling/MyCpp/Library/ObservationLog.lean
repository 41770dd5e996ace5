import Mathlib.Data.List.Basic

/-! A log of the differences between consecutive observations: what a chain of changes
is, and that observing something twice leaves no trace. -/
namespace MyCpp.ObservationLog
variable {α β ρ τ : Type*}

/-- The reports on a sequence of observations, each compared with the one before. -/
def log (diff : α → α → List ρ) : α → List α → List ρ
  | _, [] => []
  | x, y :: ys => diff x y ++ log diff y ys

/-- The second list is the first with immediate repetitions of some of its elements. -/
inductive Repeats : List α → List α → Prop where
  | nil : Repeats [] []
  | keep (x : α) {xs ys : List α} (h : Repeats xs ys) : Repeats (x :: xs) (x :: ys)
  | again {x : α} {xs ys : List α} (h : Repeats (x :: xs) ys) : Repeats (x :: xs) (x :: ys)

/-- Changes that lead from one value to another, each starting where the one before ended. -/
def Chained (eq : α → α → Bool) : α → List (α × α) → α → Prop
  | start, [], stop => eq start stop = true
  | start, (old,new) :: changes, stop =>
    eq start old = true ∧ eq old new = false ∧ Chained eq new changes stop

/-- A test that is an equivalence on the values with a property. -/
structure EquivalenceOn (eq : α → α → Bool) (P : α → Prop) : Prop where
  refl : ∀ {x}, P x → eq x x = true
  symm : ∀ {x y}, P x → P y → eq x y = true → eq y x = true
  trans : ∀ {x y z}, P x → P y → P z → eq x y = true → eq y z = true → eq x z = true

/-- The values on both sides, when they differ. -/
def changed (eq : α → α → Bool) (x y : α) : List (α × α) := if eq x y then [] else [(x,y)]

theorem log_filterMap (f : ρ → Option τ) (diff : α → α → List ρ) (x : α) (xs : List α) :
    (log diff x xs).filterMap f = log (fun x y => (diff x y).filterMap f) x xs := by
  induction xs generalizing x with
  | nil => rfl
  | cons y ys ih => rw [log,List.filterMap_append,ih,log]

theorem log_map (g : α → β) (diff : β → β → List ρ) (x : α) (xs : List α) :
    log (fun x y => diff (g x) (g y)) x xs = log diff (g x) (xs.map g) := by
  induction xs generalizing x with
  | nil => rfl
  | cons y ys ih => rw [log,List.map_cons,log,ih]

theorem Repeats.head {x : α} {xs ys : List α} (h : Repeats (x :: xs) ys) : ∃ zs, ys = x :: zs := by
  cases h with
  | keep x h => exact ⟨_,rfl⟩
  | again h => exact ⟨_,rfl⟩

/-- Repetitions add no reports when nothing differs from itself. -/
theorem Repeats.log_eq {diff : α → α → List ρ} (hd : ∀ x, diff x x = []) {xs ys : List α}
    (h : Repeats xs ys) (before : α) : log diff before ys = log diff before xs := by
  induction h generalizing before with
  | nil => rfl
  | keep x h ih => rw [log,log,ih]
  | again h ih => rw [log,ih,log,log,hd,List.nil_append]

theorem Repeats.getLastD_eq {xs ys : List α} (h : Repeats xs ys) (before : α) :
    ys.getLastD before = xs.getLastD before := by
  induction h generalizing before with
  | nil => rfl
  | keep x h ih => rw [List.getLastD_cons,List.getLastD_cons,ih]
  | again h ih => rw [List.getLastD_cons,ih,List.getLastD_cons,List.getLastD_cons]

section
variable {eq : α → α → Bool} {P : α → Prop} (he : EquivalenceOn eq P)
include he

theorem Chained.of_eq {x y stop : α} {changes : List (α × α)} (hx : P x) (hy : P y) (hstop : P stop)
    (hc : ∀ c ∈ changes, P c.1) (hxy : eq x y = true) (h : Chained eq y changes stop) :
    Chained eq x changes stop := by
  cases changes with
  | nil => exact he.trans hx hy hstop hxy h
  | cons c changes =>
    obtain ⟨hold,hrest⟩ := h
    exact ⟨he.trans hx hy (hc c List.mem_cons_self) hxy hold,hrest⟩

omit he in
theorem old_of_mem_log {x : α} {xs : List α} (hx : P x) (hxs : ∀ y ∈ xs, P y) :
    ∀ c ∈ log (changed eq) x xs, P c.1 := by
  induction xs generalizing x with
  | nil => exact fun c hc => nomatch hc
  | cons y ys ih =>
    rw [List.forall_mem_cons] at hxs
    intro c hc
    rw [log,List.mem_append] at hc
    rcases hc with hc | hc
    · rw [changed] at hc
      split at hc
      · cases hc
      · obtain rfl := List.mem_singleton.mp hc
        exact hx
    · exact ih hxs.1 hxs.2 c hc

/-- The changes of a sequence lead from its first value to its last. -/
theorem log_chained {x : α} {xs : List α} (hx : P x) (hxs : ∀ y ∈ xs, P y) :
    Chained eq x (log (changed eq) x xs) (xs.getLastD x) := by
  induction xs generalizing x with
  | nil => exact he.refl hx
  | cons y ys ih =>
    rw [List.forall_mem_cons] at hxs
    have hstop : P (ys.getLastD y) := List.forall_mem_cons.mpr hxs _ List.getLastD_mem_cons
    have hrest := ih hxs.1 hxs.2
    rw [log,changed,List.getLastD_cons]
    cases hxy : eq x y with
    | true => exact .of_eq he hx hxs.1 hstop (old_of_mem_log hxs.1 hxs.2) hxy hrest
    | false => exact ⟨he.refl hx,hxy,hrest⟩

theorem first_eq_of_log_nil {x : α} {xs : List α} (hx : P x) (hxs : ∀ y ∈ xs, P y)
    (h : log (changed eq) x xs = []) : ∀ y ∈ x :: xs, eq x y = true := by
  induction xs generalizing x with
  | nil =>
    intro y hy
    obtain rfl := List.mem_singleton.mp hy
    exact he.refl hx
  | cons y ys ih =>
    rw [List.forall_mem_cons] at hxs
    rw [log,List.append_eq_nil_iff,changed] at h
    obtain ⟨hnow,hlater⟩ := h
    have hxy : eq x y = true := by
      by_contra hne
      simp [hne] at hnow
    intro z hz
    cases hz with
    | head => exact he.refl hx
    | tail _ hz =>
      have hPz : P z := List.forall_mem_cons.mpr hxs z hz
      exact he.trans hx hxs.1 hPz hxy (ih hxs.1 hxs.2 hlater z hz)

theorem all_eq_of_log_nil {x : α} {xs : List α} (hx : P x) (hxs : ∀ y ∈ xs, P y)
    (h : log (changed eq) x xs = []) : ∀ y ∈ x :: xs, ∀ z ∈ x :: xs, eq y z = true := by
  have hP := List.forall_mem_cons.mpr ⟨hx,hxs⟩
  have hfirst := first_eq_of_log_nil he hx hxs h
  intro y hy z hz
  exact he.trans (hP y hy) hx (hP z hz) (he.symm hx (hP y hy) (hfirst y hy)) (hfirst z hz)

end

end MyCpp.ObservationLog
