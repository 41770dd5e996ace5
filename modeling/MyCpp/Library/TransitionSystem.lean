import Mathlib.Order.Basic

/-! Labelled transition systems with an executable partial step. An action resolves
every choice of scheduler and environment, so a finite run is a list of actions. -/
namespace MyCpp.TransitionSystem
variable {σ τ α β : Type*}

structure System (σ α : Type*) where
  init : σ → Prop
  step : σ → α → Option σ

namespace System

/-- States of runs in which every step meets a condition on the state before it. -/
inductive ReachableUnder (S : System σ α) (ok : σ → α → Prop) : σ → Prop where
  | init {s : σ} (h : S.init s) : ReachableUnder S ok s
  | step {s t : σ} (a : α) (hs : ReachableUnder S ok s) (ha : ok s a)
      (h : S.step s a = some t) : ReachableUnder S ok t

def Reachable (S : System σ α) : σ → Prop := S.ReachableUnder fun _ _ => True

/-- All states of such a run, the latest first. -/
inductive TraceUnder (S : System σ α) (ok : σ → α → Prop) : List σ → Prop where
  | init {s : σ} (h : S.init s) : TraceUnder S ok [s]
  | step {s t : σ} {before : List σ} (a : α) (hs : TraceUnder S ok (s :: before)) (ha : ok s a)
      (h : S.step s a = some t) : TraceUnder S ok (t :: s :: before)

/-- Execute a list of actions, failing at the first one that is not enabled. -/
def run (S : System σ α) : σ → List α → Option σ
  | s, [] => some s
  | s, a :: as => (S.step s a).bind fun t => S.run t as

theorem Reachable.next {S : System σ α} {s t : σ} (a : α) (hs : S.Reachable s)
    (h : S.step s a = some t) : S.Reachable t :=
  ReachableUnder.step a hs trivial h

theorem ReachableUnder.reachable {S : System σ α} {ok : σ → α → Prop} {s : σ}
    (h : S.ReachableUnder ok s) : S.Reachable s := by
  induction h with
  | init h => exact .init h
  | step a _ _ h ih => exact ih.next a h

theorem Reachable.run {S : System σ α} {s t : σ} (hs : S.Reachable s) (as : List α)
    (h : S.run s as = some t) : S.Reachable t := by
  induction as generalizing s with
  | nil => cases h; exact hs
  | cons a as ih =>
    obtain ⟨u,hu,ht⟩ := Option.bind_eq_some_iff.mp h
    exact ih (hs.next a hu) ht

theorem ReachableUnder.run {S : System σ α} {ok : σ → α → Prop} {s t : σ} (hs : S.ReachableUnder ok s)
    (as : List α) (ha : ∀ a ∈ as, ∀ u, ok u a) (h : S.run s as = some t) : S.ReachableUnder ok t := by
  induction as generalizing s with
  | nil =>
    cases h
    exact hs
  | cons a as ih =>
    rw [List.forall_mem_cons] at ha
    obtain ⟨u,hu,ht⟩ := Option.bind_eq_some_iff.mp h
    exact ih (hs.step a (ha.1 s) hu) ha.2 ht

theorem run_append (S : System σ α) (s : σ) (as bs : List α) :
    S.run s (as ++ bs) = (S.run s as).bind fun t => S.run t bs := by
  induction as generalizing s with
  | nil => rfl
  | cons a as ih =>
    rw [List.cons_append,run,run,Option.bind_assoc]
    congr
    funext t
    exact ih t

/-- The invariant rule. The step premise may use that the source state is reachable,
so invariants can be stacked. -/
theorem invariant_under {S : System σ α} {ok : σ → α → Prop} {P : σ → Prop}
    (hi : ∀ s, S.init s → P s)
    (hn : ∀ s a t, S.ReachableUnder ok s → ok s a → P s → S.step s a = some t → P t)
    {s : σ} (h : S.ReachableUnder ok s) : P s := by
  induction h with
  | init h => exact hi _ h
  | step a hs ha h ih => exact hn _ a _ hs ha ih h

theorem invariant {S : System σ α} {P : σ → Prop} (hi : ∀ s, S.init s → P s)
    (hn : ∀ s a t, S.Reachable s → P s → S.step s a = some t → P t)
    {s : σ} (h : S.Reachable s) : P s :=
  invariant_under hi (fun s a t hs _ => hn s a t hs) h

/-- A functional refinement: every concrete step is an abstract step or invisible. -/
structure Refines (S : System σ α) (T : System τ β) (abs : σ → τ) : Prop where
  init : ∀ s, S.init s → T.init (abs s)
  step : ∀ s a t, S.Reachable s → S.step s a = some t →
    abs t = abs s ∨ ∃ b, T.step (abs s) b = some (abs t)

theorem Refines.reachable {S : System σ α} {T : System τ β} {abs : σ → τ}
    (h : S.Refines T abs) {s : σ} (hs : S.Reachable s) : T.Reachable (abs s) := by
  refine invariant (P := fun s => T.Reachable (abs s)) (fun s hi => .init (h.init s hi)) ?_ hs
  intro s a t hs ih ht
  rcases h.step s a t hs ht with he | ⟨b,hb⟩
  · rwa [he]
  · exact ih.next b hb

def Stuck (S : System σ α) (s : σ) : Prop := ∀ a, S.step s a = none

/-- A complete run: it takes steps as long as any is enabled and then stays put. -/
structure Execution (S : System σ α) where
  state : Nat → σ
  start : S.init (state 0)
  next : ∀ n, (∃ a, S.step (state n) a = some (state (n+1))) ∨
    (S.Stuck (state n) ∧ state (n+1) = state n)

theorem Execution.reachable {S : System σ α} (e : S.Execution) (n : Nat) :
    S.Reachable (e.state n) := by
  induction n with
  | zero => exact .init e.start
  | succ n ih =>
    rcases e.next n with ⟨a,ha⟩ | ⟨_,he⟩
    · exact ih.next a ha
    · rwa [he]

theorem exists_execution (S : System σ α) {s : σ} (hs : S.init s) : ∃ e : S.Execution, e.state 0 = s := by
  have hnext : ∀ t, ∃ u, (∃ a, S.step t a = some u) ∨ (S.Stuck t ∧ u = t) := by
    intro t
    by_cases h : ∃ a u, S.step t a = some u
    · obtain ⟨a,u,hu⟩ := h
      exact ⟨u,.inl ⟨a,hu⟩⟩
    · refine ⟨t,.inr ⟨fun a => ?_,rfl⟩⟩
      exact Option.eq_none_iff_forall_ne_some.mpr fun u hu => h ⟨a,u,hu⟩
  obtain ⟨next,hnext⟩ := Classical.skolem.mp hnext
  exact ⟨⟨fun n => n.rec s fun _ t => next t,hs,fun n => hnext _⟩,rfl⟩

/-- The states of a finite run, the last one repeated. -/
def states (S : System σ α) : σ → List α → Nat → σ
  | s, [], _ => s
  | s, _ :: _, 0 => s
  | s, a :: as, n+1 => match S.step s a with
    | some t => S.states t as n
    | none => s

theorem states_next {S : System σ α} {s t : σ} {as : List α} (h : S.run s as = some t) (ht : S.Stuck t)
    (n : Nat) :
    (∃ a, S.step (S.states s as n) a = some (S.states s as (n+1))) ∨
      (S.Stuck (S.states s as n) ∧ S.states s as (n+1) = S.states s as n) := by
  induction as generalizing s n with
  | nil =>
    cases h
    exact .inr ⟨ht,rfl⟩
  | cons a as ih =>
    obtain ⟨u,hu,hrun⟩ := Option.bind_eq_some_iff.mp h
    have hstep (k : Nat) : S.states s (a :: as) (k+1) = S.states u as k := by
      simp only [states,hu]
    cases n with
    | zero =>
      refine .inl ⟨a,hu.trans ?_⟩
      rw [hstep]
      cases as <;> rfl
    | succ n =>
      rw [hstep,hstep]
      exact ih hrun n

theorem states_of_length_le {S : System σ α} {s t : σ} {as : List α} (h : S.run s as = some t) {n : Nat}
    (hn : as.length ≤ n) : S.states s as n = t := by
  induction as generalizing s n with
  | nil => exact Option.some.inj h
  | cons a as ih =>
    obtain ⟨u,hu,hrun⟩ := Option.bind_eq_some_iff.mp h
    obtain ⟨n,rfl⟩ := Nat.exists_eq_add_of_le' hn
    rw [List.length_cons,← Nat.add_assoc]
    simp only [states,hu]
    exact ih hrun (Nat.le_add_left _ _)

/-- A finite run that ends where no step is enabled is complete. -/
def Execution.ofRun {S : System σ α} {s t : σ} (hs : S.init s) {as : List α} (h : S.run s as = some t)
    (ht : S.Stuck t) : S.Execution where
  state := S.states s as
  start := by
    cases as <;> exact hs
  next := states_next h ht

/-- The progress rule along one run: from a point on, short of the goal some step is enabled and
the step taken reaches the goal or lowers the measure, so the goal is reached. -/
theorem Execution.eventually_from {S : System σ α} (e : S.Execution) (G : σ → Prop) (μ : σ → Nat) (n : Nat)
    (h : ∀ m, n ≤ m → ¬ G (e.state m) → (∃ a t, S.step (e.state m) a = some t) ∧
      ∀ a, S.step (e.state m) a = some (e.state (m+1)) → G (e.state (m+1)) ∨ μ (e.state (m+1)) < μ (e.state m)) :
    ∃ m, n ≤ m ∧ G (e.state m) := by
  induction hk : μ (e.state n) using Nat.strongRecOn generalizing n with
  | ind k ih =>
    by_cases hg : G (e.state n)
    · exact ⟨n,Nat.le_refl n,hg⟩
    obtain ⟨⟨a,t,ht⟩,hdec⟩ := h n (Nat.le_refl n) hg
    rcases e.next n with ⟨b,hb⟩ | ⟨hstuck,_⟩
    · rcases hdec b hb with hg' | hlt
      · exact ⟨n+1,Nat.le_succ n,hg'⟩
      · obtain ⟨m,hm,hgm⟩ := ih _ (hk ▸ hlt) (n+1) (fun m hm => h m (Nat.le_of_succ_le hm)) rfl
        exact ⟨m,Nat.le_of_succ_le hm,hgm⟩
    · simp [hstuck a] at ht

/-- The progress rule: short of the goal some step is enabled, and every step reaches the
goal or lowers the measure, so every complete run reaches the goal from any point on. -/
theorem Execution.eventually {S : System σ α} (e : S.Execution) (G : σ → Prop) (μ : σ → Nat)
    (h : ∀ s, S.Reachable s → ¬ G s → (∃ a t, S.step s a = some t) ∧
      ∀ a t, S.step s a = some t → G t ∨ μ t < μ s)
    (n : Nat) : ∃ m, n ≤ m ∧ G (e.state m) := by
  refine e.eventually_from G μ n fun m _ hg => ?_
  obtain ⟨henabled,hdec⟩ := h _ (e.reachable m) hg
  exact ⟨henabled,fun a ha => hdec a _ ha⟩

end System
end MyCpp.TransitionSystem
