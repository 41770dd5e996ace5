import Mathlib.Data.List.Nodup
import Mathlib.Data.List.Range
import MyCpp.RateDrivers.DriverModels
import MyCpp.ThreadPool.PoolDispatch

/-! What has been sent when a driver takes its end_time. rate2.cxx joins its threads first;
rate3.cxx leaves the only join to the destructor of the pool, which runs later. -/
namespace MyCpp.RateDrivers
open TransitionSystem ThreadPool

namespace Rate2

/-- Where the loops are and which threads have been joined. -/
def Pc.Place (numRequests : Nat) (threads : List Bool) : Pc → Prop
  | .spawn i => threads.length = i ∧ i ≤ numRequests
  | .join i => threads.length = numRequests ∧ ∀ j < i, threads[j]? = some true
  | .ended => threads.length = numRequests

structure Tracked (numRequests : Nat) (s : Driver) : Prop where
  place : s.pc.Place numRequests s.threads
  once : s.completed.Nodup
  done : ∀ i, i ∈ s.completed ↔ s.threads[i]? = some true
  sent : AllSent numRequests s.atEnd

theorem Tracked.all_completed {numRequests : Nat} {s : Driver} (h : Tracked numRequests s)
    (hlen : s.threads.length = numRequests) (hall : ∀ j < numRequests, s.threads[j]? = some true) :
    s.completed.Perm (List.range numRequests) := by
  apply (List.perm_ext_iff_of_nodup h.once List.nodup_range).mpr
  intro i
  rw [h.done,List.mem_range]
  constructor
  · intro hi
    obtain ⟨hlt,_⟩ := List.getElem?_eq_some_iff.mp hi
    exact hlen ▸ hlt
  · exact hall i

private theorem getElem?_push_false (threads : List Bool) (j : Nat) :
    (threads ++ [false])[j]? = some true ↔ threads[j]? = some true := by
  rw [List.getElem?_append]
  split
  · rfl
  · rename_i hj
    rw [List.getElem?_eq_none (Nat.le_of_not_lt hj)]
    cases j - threads.length <;> simp

theorem Tracked.spawned {numRequests : Nat} {s : Driver} (h : Tracked numRequests s) {i : Nat}
    (hlen : s.threads.length = i) (hi : i < numRequests) :
    Tracked numRequests { s with threads := s.threads ++ [false], pc := .spawn (i+1) } := by
  refine ⟨⟨?_,hi⟩,h.once,?_,h.sent⟩
  · rw [List.length_append,hlen]
    rfl
  · intro j
    rw [h.done]
    exact (getElem?_push_false s.threads j).symm

theorem Tracked.joined {numRequests : Nat} {s : Driver} (h : Tracked numRequests s) {i : Nat}
    (hlen : s.threads.length = numRequests) (hjoined : ∀ j < i, s.threads[j]? = some true)
    (hi : s.threads[i]? = some true) : Tracked numRequests { s with pc := .join (i+1) } := by
  refine ⟨⟨hlen,?_⟩,h.once,h.done,h.sent⟩
  intro j hj
  by_cases hji : j = i
  · rw [hji]
    exact hi
  · exact hjoined j (by omega)

theorem Tracked.ended {numRequests : Nat} {s : Driver} (h : Tracked numRequests s) {i : Nat}
    (hlen : s.threads.length = numRequests) (hjoined : ∀ j < i, s.threads[j]? = some true)
    (hi : s.threads[i]? = none) : Tracked numRequests { s with pc := .ended, atEnd := some s.completed } := by
  refine ⟨hlen,h.once,h.done,?_⟩
  intro ids hids
  cases hids
  apply h.all_completed hlen
  intro j hj
  apply hjoined
  have hge := List.getElem?_eq_none_iff.mp hi
  omega

theorem Tracked.driver {numRequests : Nat} {s t : Driver} (h : Tracked numRequests s)
    (ht : sendRequestsConcurrently numRequests s = some t) : Tracked numRequests t := by
  have hplace := h.place
  rw [sendRequestsConcurrently] at ht
  cases hpc : s.pc with
  | spawn i =>
    rw [hpc] at ht hplace
    dsimp only at ht
    obtain ⟨hlen,hle⟩ := hplace
    by_cases hi : i < numRequests
    · rw [if_pos hi] at ht
      cases ht
      exact h.spawned hlen hi
    · rw [if_neg hi] at ht
      cases ht
      have hall : s.threads.length = numRequests := by omega
      exact ⟨⟨hall,fun j hj => absurd hj (Nat.not_lt_zero j)⟩,h.once,h.done,h.sent⟩
  | join i =>
    rw [hpc] at ht hplace
    dsimp only at ht
    obtain ⟨hlen,hjoined⟩ := hplace
    cases hi : s.threads[i]? with
    | none =>
      rw [hi] at ht
      cases ht
      exact h.ended hlen hjoined hi
    | some finished =>
      rw [hi] at ht
      cases finished with
      | false => cases ht
      | true =>
        cases ht
        exact h.joined hlen hjoined hi
  | ended =>
    rw [hpc] at ht
    cases ht

theorem Pc.Place.set {numRequests : Nat} {threads : List Bool} {pc : Pc} (h : pc.Place numRequests threads)
    (i : Nat) : pc.Place numRequests (threads.set i true) := by
  cases pc with
  | join j =>
    rw [Pc.Place,List.length_set]
    refine ⟨h.1,?_⟩
    intro k hk
    have hdone := h.2 k hk
    obtain ⟨hlt,_⟩ := List.getElem?_eq_some_iff.mp hdone
    by_cases hik : i = k
    · rw [hik,List.getElem?_set_self hlt]
    · rw [List.getElem?_set_ne hik]
      exact hdone
  | spawn j
  | ended =>
    rw [Pc.Place,List.length_set]
    exact h

theorem Tracked.finish {numRequests : Nat} {s : Driver} (h : Tracked numRequests s) {i : Nat}
    (hi : s.threads[i]? = some false) :
    Tracked numRequests { s with threads := s.threads.set i true, completed := s.completed ++ [i] } := by
  have hnew : i ∉ s.completed := by
    rw [h.done,hi]
    exact nofun
  refine ⟨h.place.set i,?_,?_,h.sent⟩
  · rw [List.nodup_append]
    refine ⟨h.once,List.nodup_singleton i,?_⟩
    intro j hj k hk hjk
    rw [List.mem_singleton.mp hk] at hjk
    exact hnew (hjk ▸ hj)
  · intro j
    obtain ⟨hlt,_⟩ := List.getElem?_eq_some_iff.mp hi
    rw [List.mem_append,List.mem_singleton,h.done]
    by_cases hij : i = j
    · subst hij
      simp [hlt]
    · rw [List.getElem?_set_ne hij]
      simp [Ne.symm hij]

theorem reachable_tracked {numRequests : Nat} {s : Driver} (h : (system numRequests).Reachable s) :
    Tracked numRequests s := by
  refine System.invariant (P := Tracked numRequests) ?_ ?_ h
  · intro s hs
    obtain rfl : s = {} := hs
    exact ⟨⟨rfl,Nat.zero_le _⟩,List.nodup_nil,by simp,nofun⟩
  · intro s a t _ hinv ht
    cases a with
    | driver => exact hinv.driver ht
    | finish i =>
      change step numRequests s (.finish i) = some t at ht
      rw [step] at ht
      split at ht
      · rename_i hi
        cases ht
        exact hinv.finish hi
      · cases ht

end Rate2

namespace Rate3

/-- The actions of the pool that put a task into the queue. -/
def Pushes : ThreadPool.Action Nat → Prop
  | .enqueue _ => True
  | .taskEnqueue _ _ => True
  | _ => False

inductive Effect (numRequests : Nat) (s : Driver) : Driver → Prop where
  | pool (b : ThreadPool.Action Nat) (pc : Pc) (hb : ¬ Pushes b) {t : Driver} (h : s.act b pc = some t) :
      Effect numRequests s t
  | enqueue (i : Nat) (hi : i < numRequests) {t : Driver} (h : s.act (.enqueue i) (.notifying i) = some t) :
      Effect numRequests s t
  | startTimer : Effect numRequests s { s with pc := .loop 0 }
  | endTimer (i : Nat) (hpc : s.pc = .loop i) (hi : numRequests ≤ i) :
      Effect numRequests s { s with pc := .ended, atEnd := some s.completed }

private theorem guarded_effect {numRequests : Nat} {s t : Driver} {b : ThreadPool.Action Nat} {pc : Pc}
    {c : Prop} [Decidable c] (hb : ¬ Pushes b) (h : (if c then s.act b pc else none) = some t) :
    Effect numRequests s t := by
  split at h
  · exact .pool b pc hb h
  · cases h

theorem step_effect {numRequests : Nat} {s t : Driver} {a : Action} (h : step numRequests s a = some t) :
    Effect numRequests s t := by
  cases a with
  | spawn => exact guarded_effect id h
  | startTimer =>
    rw [step] at h
    split at h
    · cases h
      exact .startTimer
    · cases h
  | enqueue =>
    rw [step] at h
    split at h
    · rename_i i _
      split at h
      · rename_i hi
        exact .enqueue i hi h
      · cases h
    · cases h
  | notify target =>
    rw [step] at h
    split at h
    · exact .pool (.notify target) _ id h
    · cases h
  | endTimer =>
    rw [step] at h
    split at h
    · rename_i i hpc
      split at h
      · cases h
      · rename_i hi
        cases h
        exact .endTimer i hpc (Nat.le_of_not_lt hi)
    · cases h
  | lock w => exact .pool (.lock w) _ id h
  | wake w => exact .pool (.wake w) _ id h
  | finish w => exact .pool (.finish w) _ id h
  | dtorStart => exact guarded_effect id h
  | dtorStop => exact guarded_effect id h
  | dtorNotifyAll => exact guarded_effect id h
  | dtorJoin => exact guarded_effect id h

theorem act_some {s t : Driver} {b : ThreadPool.Action Nat} {pc : Pc} (h : s.act b pc = some t) :
    s.pool.step numThreads false b = some t.pool ∧ t.atEnd = s.atEnd := by
  obtain ⟨pool,hpool,rfl⟩ := Option.map_eq_some_iff.mp h
  exact ⟨hpool,rfl⟩

/-- The pool of the driver runs as the pool alone does. -/
theorem refines_pool (numRequests : Nat) :
    (system numRequests).Refines (ThreadPool.system Nat numThreads false) Driver.pool where
  init := by
    intro s hs
    obtain rfl : s = {} := hs
    exact rfl
  step := by
    intro s a t _ ht
    cases step_effect ht with
    | pool b pc hb h => exact .inr ⟨b,(act_some h).1⟩
    | enqueue i hi h => exact .inr ⟨.enqueue i,(act_some h).1⟩
    | startTimer => exact .inl rfl
    | endTimer i hpc hi => exact .inl rfl

private theorem workerThread_pushed {p q : Pool Nat} {w : Nat} (h : p.workerThread w = some q) :
    q.pushed = p.pushed := by
  rw [Pool.workerThread] at h
  split at h <;> cases h <;> rfl

theorem pushed_of_not_pushes {p q : Pool Nat} {b : ThreadPool.Action Nat} (hb : ¬ Pushes b)
    (h : p.step numThreads false b = some q) : q.pushed = p.pushed := by
  cases b with
  | enqueue task => exact absurd trivial hb
  | taskEnqueue w task => exact absurd trivial hb
  | notify target
  | taskNotify w target =>
    rw [Pool.step] at h
    split at h
    · obtain ⟨ws,_,rfl⟩ := Option.map_eq_some_iff.mp h
      rfl
    · cases h
  | lock w =>
    rw [Pool.step] at h
    split at h
    · exact workerThread_pushed h
    · exact workerThread_pushed h
    · cases h
  | dtorJoin =>
    rw [Pool.step] at h
    split at h
    · split at h
      · cases h
        rfl
      · cases h
      · cases h
        rfl
    · cases h
  | _ =>
    rw [Pool.step] at h
    split at h
    · cases h
      rfl
    · cases h

theorem executed_nil {p : Pool Nat} (h : (ThreadPool.system Nat numThreads false).Reachable p)
    (hp : p.pushed = []) : p.executed = [] := by
  have hs := pool_dispatch_sound h
  have htaken : p.taken = [] := by
    have hfifo : p.pushed = p.taken.map Prod.snd ++ p.tasks := hs.fifo
    rw [hp] at hfifo
    exact List.map_eq_nil_iff.mp (List.append_eq_nil_iff.mp hfifo.symm).1
  apply List.eq_nil_iff_forall_not_mem.mpr
  intro e he
  have hdone : p.taken[e.occ]? = some (e.worker,e.task) := hs.done e he
  rw [htaken] at hdone
  cases hdone

theorem nothing_sent {s : Driver} (h : (system 0).Reachable s) : s.pool.pushed = [] ∧ AllSent 0 s.atEnd := by
  refine System.invariant (P := fun s => s.pool.pushed = [] ∧ AllSent 0 s.atEnd) ?_ ?_ h
  · intro s hs
    obtain rfl : s = {} := hs
    exact ⟨rfl,nofun⟩
  · intro s a t hr hinv ht
    cases step_effect ht with
    | pool b pc hb hact =>
      obtain ⟨hpool,hend⟩ := act_some hact
      rw [pushed_of_not_pushes hb hpool,hend]
      exact hinv
    | enqueue i hi hact => exact absurd hi (Nat.not_lt_zero i)
    | startTimer => exact hinv
    | endTimer i hpc hi =>
      refine ⟨hinv.1,?_⟩
      intro ids hids
      cases hids
      rw [Driver.completed,executed_nil ((refines_pool 0).reachable hr) hinv.1]
      exact .nil

/-- The pool is up, the first `k` requests wait in its queue and no worker has moved. -/
def queued (k : Nat) (pc : Pc) : Driver where
  pc := pc
  pool := { workers := List.replicate numThreads .locking, tasks := List.range k, pushed := List.range k }

theorem queued_next {numRequests k : Nat} (hk : k < numRequests)
    (h : (system numRequests).Reachable (queued k (.loop k))) :
    (system numRequests).Reachable (queued (k+1) (.loop (k+1))) := by
  have henqueue : (system numRequests).step (queued k (.loop k)) .enqueue =
      some { queued (k+1) (.notifying k) with
        pool := { (queued (k+1) (.notifying k)).pool with callers := 1 } } := by
    simp [system,step,queued,hk,Driver.act,Pool.step,Pool.enqueueTask,List.range_succ]
  have hnotify : (system numRequests).step { queued (k+1) (.notifying k) with
        pool := { (queued (k+1) (.notifying k)).pool with callers := 1 } } (.notify none) =
      some (queued (k+1) (.loop (k+1))) := rfl
  exact (h.next .enqueue henqueue).next (.notify none) hnotify

theorem queued_reachable {numRequests k : Nat} (hk : k ≤ numRequests) :
    (system numRequests).Reachable (queued k (.loop k)) := by
  induction k with
  | zero =>
    have hrun : (system numRequests).run {} [.spawn,.spawn,.spawn,.spawn,.startTimer] =
        some (queued 0 (.loop 0)) := rfl
    exact .run (.init rfl) _ hrun
  | succ k ih => exact queued_next hk (ih (by omega))

/-- The clock is read while every request still waits in the queue. -/
theorem ends_unsent (numRequests : Nat) :
    ∃ s, (system numRequests).Reachable s ∧ s.atEnd = some [] := by
  have hstep : (system numRequests).step (queued numRequests (.loop numRequests)) .endTimer =
      some { queued numRequests .ended with atEnd := some [] } := by
    simp [system,step,queued,Driver.completed]
  exact ⟨_,(queued_reachable (Nat.le_refl numRequests)).next .endTimer hstep,rfl⟩

end Rate3

/-- For every number of requests: when rate2.cxx takes its end_time every request has been
executed once, in every interleaving; in rate3.cxx that holds only without requests. -/
theorem all_sent_iff (numRequests : Nat) :
    (∀ s, (Rate2.system numRequests).Reachable s → AllSent numRequests s.atEnd) ∧
    ((∀ s, (Rate3.system numRequests).Reachable s → AllSent numRequests s.atEnd) ↔ numRequests = 0) := by
  refine ⟨fun s hs => (Rate2.reachable_tracked hs).sent,?_,?_⟩
  · intro h
    obtain ⟨s,hs,hend⟩ := Rate3.ends_unsent numRequests
    have hlen := (h s hs [] hend).length_eq
    rw [List.length_range] at hlen
    exact hlen.symm
  · intro h0 s hs
    subst h0
    exact (Rate3.nothing_sent hs).2

/-- One request: the driver of rate3.cxx reads the clock and prints before any worker has
moved. -/
theorem rate3_ends_before_sending :
    ∃ s, (Rate3.system 1).run {} [.spawn,.spawn,.spawn,.spawn,.startTimer,.enqueue,.notify none,.endTimer] =
        some s ∧
      (Rate3.system 1).Reachable s ∧ s.pc = .ended ∧ s.atEnd = some [] ∧ s.pool.tasks = [0] ∧
      ¬ AllSent 1 s.atEnd := by
  have hrun : (Rate3.system 1).run {}
      [.spawn,.spawn,.spawn,.spawn,.startTimer,.enqueue,.notify none,.endTimer] =
        some { Rate3.queued 1 .ended with atEnd := some [] } := rfl
  refine ⟨_,hrun,.run (.init rfl) _ hrun,rfl,rfl,rfl,?_⟩
  intro h
  exact absurd (h [] rfl) (by decide)

end MyCpp.RateDrivers
