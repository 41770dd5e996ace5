import Mathlib.Logic.Basic

/-! The pthread mutex of type PTHREAD_MUTEX_ERRORCHECK: a mutex is the thread that holds
it, and the error codes of calls without effect are not looked at. -/
namespace MyCpp.ErrorCheckMutex
variable {θ : Type*} [DecidableEq θ]

/-- pthread_mutex_lock. It blocks while another thread holds the mutex; on a mutex the
caller holds it fails with EDEADLK. -/
def lock (t : θ) : Option θ → Option (Option θ)
  | none => some (some t)
  | some holder => if holder = t then some (some holder) else none

/-- pthread_mutex_unlock. It fails with EPERM when the caller is not the holder. -/
def unlock (t : θ) : Option θ → Option θ
  | none => none
  | some holder => if holder = t then none else some holder

theorem lock_free (t : θ) : lock t none = some (some t) := rfl

theorem lock_own (t : θ) : lock t (some t) = some (some t) := if_pos rfl

theorem unlock_own (t : θ) : unlock t (some t) = none := if_pos rfl

/-- A lock that returns leaves the caller as the holder, whether it succeeded or not. -/
theorem lock_eq_some {t : θ} {m m' : Option θ} (h : lock t m = some m') :
    m' = some t ∧ (m = none ∨ m = some t) := by
  cases m with
  | none =>
    cases h
    exact ⟨rfl,.inl rfl⟩
  | some holder =>
    rw [lock] at h
    split at h
    · rename_i he
      cases h
      exact ⟨congrArg some he,.inr (congrArg some he)⟩
    · cases h

theorem lock_eq_none {t : θ} {m : Option θ} : lock t m = none ↔ ∃ holder, holder ≠ t ∧ m = some holder := by
  cases m with
  | none => simp [lock]
  | some holder => simp [lock]

end MyCpp.ErrorCheckMutex
