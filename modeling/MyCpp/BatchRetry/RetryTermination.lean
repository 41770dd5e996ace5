import Mathlib.Algebra.Order.BigOperators.Group.List
import MyCpp.BatchRetry.RetryFairness

/-! The workers return with the success of the last request and not before: they make as
many sends as it takes for as many successes as there are requests. -/
namespace MyCpp.BatchRetry
open TransitionSystem RoundRobin
variable {outcome : Nat → Bool} {initial : List String} {batchSizes : List Int}

/-- Successes among the first `n` outcomes. -/
def successCount (outcome : Nat → Bool) (n : Nat) : Nat := Nat.count (outcome · = true) n

/-- The `n`-th success is the N-th outcome, both counted from one; no success takes no outcome. -/
def NthSuccess (outcome : Nat → Bool) (n N : Nat) : Prop :=
  successCount outcome N = n ∧ ∀ M < N, successCount outcome M < n

theorem NthSuccess.unique {n N M : Nat} (hN : NthSuccess outcome n N) (hM : NthSuccess outcome n M) : N = M := by
  rcases Nat.lt_trichotomy N M with h | h | h
  · exact absurd hN.1 (hM.2 N h).ne
  · exact h
  · exact absurd hM.1 (hN.2 M h).ne

theorem exists_nthSuccess {n : Nat} (h : ∃ N, n ≤ successCount outcome N) : ∃ N, NthSuccess outcome n N := by
  classical
  have hshort (M : Nat) (hM : M < Nat.find h) : successCount outcome M < n := Nat.lt_of_not_le (Nat.find_min h hM)
  refine ⟨Nat.find h,Nat.le_antisymm ?_ (Nat.find_spec h),hshort⟩
  cases hN : Nat.find h with
  | zero => simp [successCount]
  | succ N =>
    have hlt := hshort N (by omega)
    rw [successCount,Nat.count_succ]
    rw [successCount] at hlt
    split <;> omega

/-- What is queued or in flight and the successes make up all requests; while some of
them are left the last success is to come. -/
theorem retry_count {s : Retry} (h : (system initial batchSizes outcome).Reachable s) :
    s.plain.queue.length + successCount outcome s.sends.length = initial.length ∧
    ∀ n < s.sends.length, successCount outcome n < initial.length := by
  obtain ⟨m,hm⟩ := retry_plain_run h
  have hcount := rounds_count outcome initial m
  have hsends : s.sends = (rounds outcome initial m).tried := by
    rw [← show s.plain.sends = s.sends from rfl,hm,plainRun_rounds]
  rw [hm,hsends,plainRun_rounds]
  exact hcount

theorem drained_nthSuccess {s : Retry} (h : (system initial batchSizes outcome).Reachable s)
    (hq : s.plain.queue = []) : NthSuccess outcome initial.length s.sends.length := by
  obtain ⟨hcount,hshort⟩ := retry_count h
  rw [hq,List.length_nil,Nat.zero_add] at hcount
  exact ⟨hcount,hshort⟩

/-- Steps a worker can take until it returns, once the queue is empty. -/
def Worker.leaving (p : Worker) : Nat :=
  match p.pc with
  | .returned => 0
  | .testing => 1
  | .top => 2
  | .pausing => 3
  | .batch _ => 4
  | .sending _ _ => 5

def Retry.leaving (s : Retry) : Nat := (s.workers.map Worker.leaving).sum

theorem Retry.leaving_le (s : Retry) : s.leaving ≤ 5 * s.workers.length := by
  have hmost : ∀ n ∈ s.workers.map Worker.leaving, n ≤ 5 := by
    intro n hn
    obtain ⟨p,_,rfl⟩ := List.mem_map.mp hn
    cases hp : p.pc <;> simp [Worker.leaving,hp]
  rw [Retry.leaving,Nat.mul_comm,← List.length_map Worker.leaving]
  exact List.sum_le_card_nsmul _ 5 hmost

theorem effect_leaving {s t : Retry} (hs : s.Exclusive) (hq : s.plain.queue = []) (he : Effect outcome s t) :
    t.sends = s.sends ∧ t.leaving < s.leaving := by
  have idle {w : Nat} {p : Worker} (hw : s.workers[w]? = some p) (hl : p.pc.Locked) :
      p.pc.inHand = [] ∧ s.requestQueue = [] := by
    have ho := (hs w p hw).mp hl
    rw [hs.plain hw (by simp [ho])] at hq
    exact List.append_eq_nil_iff.mp hq
  cases he with
  | lock w p hw hp => exact ⟨rfl,Retry.sum_lt Worker.leaving hw rfl (by simp [Worker.leaving,hp])⟩
  | leave w p hw hp => exact ⟨rfl,Retry.sum_lt Worker.leaving hw rfl (by simp [Worker.leaving,hp])⟩
  | enter w p hw hp hne => exact absurd (idle hw (by simp [hp,Pc.Locked])).2 hne
  | pop w p i request rest hw hp hi hcons => simp [(idle hw (by simp [hp,Pc.Locked])).2] at hcons
  | pause w p i hw hp => exact ⟨rfl,Retry.sum_lt Worker.leaving hw rfl (by simp [Worker.leaving,hp])⟩
  | send w p i request hw hp =>
    have hnil := (idle hw (by simp [hp,Pc.Locked])).1
    simp [hp,Pc.inHand] at hnil
  | unlock w p hw hp => exact ⟨rfl,Retry.sum_lt Worker.leaving hw rfl (by simp [Worker.leaving,hp])⟩

/-- What is left of a run that ends after `N` sends. -/
def Retry.remaining (N : Nat) (s : Retry) : Nat :=
  6 * (N - s.sends.length) +
    if s.plain.queue = [] then s.leaving else s.distance + 5 * s.workers.length

theorem remaining_decreases {N : Nat} (hb : ∀ b ∈ batchSizes, 1 ≤ b) (hN : NthSuccess outcome initial.length N)
    {s t : Retry} (hs : (system initial batchSizes outcome).Reachable s) {w : Nat}
    (ht : s.processBatch outcome w = some t) : t.remaining N < s.remaining N := by
  have hs' := hs.next w ht
  have he := Retry.step_effect w ht
  have hlen : t.workers.length = s.workers.length := by
    rw [← List.length_map Worker.batchSize,(retry_settled hs').sizes,← (retry_settled hs).sizes,List.length_map]
  by_cases hq : s.plain.queue = []
  · obtain ⟨hsends,hlt⟩ := effect_leaving (retry_exclusive hs) hq he
    have hq' := plain_nil_effect (retry_exclusive hs) (retry_exclusive hs') he hq
    rw [Retry.remaining,Retry.remaining,if_pos hq,if_pos hq',hsends]
    omega
  · have hearly : s.sends.length < N := by
      have hcount := (retry_count hs).1
      have hpos := List.length_pos_of_ne_nil hq
      by_contra hle
      have hmono : successCount outcome N ≤ successCount outcome s.sends.length :=
        Nat.count_monotone _ (Nat.le_of_not_lt hle)
      rw [hN.1] at hmono
      omega
    have hstep := effect_progress ((retry_settled hs).size_pos hb) (retry_exclusive hs) hq he
    have hleaving := t.leaving_le
    rw [Retry.remaining,Retry.remaining,if_neg hq,hlen]
    rw [hlen] at hleaving
    split <;> omega

/-- For any workers with positive batch sizes and any outcomes. With as many successes as
there are requests, every complete run comes to the return of all workers, and none has
returned before or after the send that is the last success. With fewer, no worker ever
returns and a step is always left to take. -/
theorem returns_at_last_success (initial : List String) (batchSizes : List Int) (outcome : Nat → Bool)
    (hw : 1 ≤ batchSizes.length) (hb : ∀ b ∈ batchSizes, 1 ≤ b) :
    ((∃ N, initial.length ≤ successCount outcome N) → ∃ N, NthSuccess outcome initial.length N ∧
      (∀ e : (system initial batchSizes outcome).Execution, ∃ n,
        (∀ p ∈ (e.state n).workers, p.pc = .returned) ∧ (e.state n).sends.length = N) ∧
      ∀ s, (system initial batchSizes outcome).Reachable s → (∃ p ∈ s.workers, p.pc = .returned) →
        s.sends.length = N) ∧
    ((∀ N, successCount outcome N < initial.length) → ∀ s, (system initial batchSizes outcome).Reachable s →
      (∀ p ∈ s.workers, p.pc ≠ .returned) ∧ ∃ w t, (system initial batchSizes outcome).step s w = some t) := by
  have hreturned (s : Retry) (h : (system initial batchSizes outcome).Reachable s)
      (hret : ∃ p ∈ s.workers, p.pc = .returned) : NthSuccess outcome initial.length s.sends.length := by
    obtain ⟨p,hp,hpc⟩ := hret
    obtain ⟨w,hw⟩ := List.getElem?_of_mem hp
    exact drained_nthSuccess h ((retry_settled h).drained w p hw hpc)
  constructor
  · intro hmany
    obtain ⟨N,hN⟩ := exists_nthSuccess hmany
    refine ⟨N,hN,fun e => ?_,fun s h hret => (hreturned s h hret).unique hN⟩
    obtain ⟨n,_,hn⟩ := e.eventually (fun s => ∀ p ∈ s.workers, p.pc = .returned) (Retry.remaining N) (by
      intro s hs hactive
      refine ⟨?_,fun w t ht => .inr (remaining_decreases hb hN hs ht)⟩
      obtain ⟨p,hp,hpc⟩ : ∃ p ∈ s.workers, p.pc ≠ .returned := by
        simpa using hactive
      obtain ⟨w,hw⟩ := List.getElem?_of_mem hp
      exact active_enabled hs hw hpc) 0
    refine ⟨n,hn,?_⟩
    obtain ⟨p,hp⟩ := (retry_settled (e.reachable n)).first hw
    have hmem := List.mem_of_getElem? hp
    exact (hreturned _ (e.reachable n) ⟨p,hmem,hn p hmem⟩).unique hN
  · intro hfew s hs
    refine ⟨fun p hp hpc => ?_,?_⟩
    · exact absurd (hreturned s hs ⟨p,hp,hpc⟩).1 (hfew _).ne
    · refine retry_enabled hw hs fun hq => ?_
      exact absurd (drained_nthSuccess hs hq).1 (hfew _).ne

/-- The second success of the flaky outcomes is the third send, after which both workers return. -/
theorem returns_at_last_success_flaky : NthSuccess flakyOutcome 2 3 ∧
    ∃ s, (system ["a","b"] [1,3] flakyOutcome).Reachable s ∧ (∀ p ∈ s.workers, p.pc = .returned) ∧
      s.sends.length = 3 := by
  have hthird : NthSuccess flakyOutcome 2 3 := ⟨by decide,by decide⟩
  obtain ⟨N,hN,hruns,_⟩ := (returns_at_last_success ["a","b"] [1,3] flakyOutcome (by decide) (by decide)).1
    ⟨3,hthird.1.ge⟩
  obtain ⟨e,_⟩ := (system ["a","b"] [1,3] flakyOutcome).exists_execution rfl
  obtain ⟨n,hret,hlen⟩ := hruns e
  exact ⟨hthird,e.state n,e.reachable n,hret,hlen.trans (hN.unique hthird)⟩

end MyCpp.BatchRetry
