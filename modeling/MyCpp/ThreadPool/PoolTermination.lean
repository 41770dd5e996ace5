import MyCpp.Library.ListUpdate
import MyCpp.ThreadPool.PoolShutdown

/-! Runs of the pool come to an end. The work that is left falls with every step, but for two: a
worker that falls asleep may be woken for nothing. It falls asleep only over an empty queue and
before stop, so a waiting task is taken and the destructor returns whatever the scheduler does. -/
namespace MyCpp.ThreadPool
open TransitionSystem
variable {Task : Type}

/-- A worker leaves condition.wait without a notification. -/
def Pool.SpuriousWake (s t : Pool Task) : Prop :=
  ∃ w : Nat, s.workers[w]? = some .asleep ∧ t = s.setWorker w .woken

/-- What a worker can still do before it takes a further task; `asleep` is what a sleeper counts. -/
def WorkerPc.work (asleep : Nat) : WorkerPc Task → Nat
  | .asleep => asleep
  | .locking => 1
  | .woken => 1
  | .running _ _ => 2
  | .notifying _ _ => 4
  | .returned => 0

def DtorPc.work (numThreads : Nat) : DtorPc → Nat
  | .notStarted => 2 * numThreads + 4
  | .locking => 2 * numThreads + 3
  | .notifying => 2 * numThreads + 2
  | .joining next => numThreads - next + 1
  | .returned => 0

def workersWork (asleep : Nat) (ws : List (WorkerPc Task)) : Nat := (ws.map (WorkerPc.work asleep)).sum

/-- What is left to do when no more than so many tasks are ever pushed. -/
def Pool.work (numThreads pushes asleep : Nat) (s : Pool Task) : Nat :=
  2 * (numThreads - s.workers.length) + 5 * (pushes - s.pushed.length) + 2 * s.tasks.length + 2 * s.callers +
    workersWork asleep s.workers + s.dtor.work numThreads

section Work
variable (asleep : Nat)

theorem workersWork_set {ws : List (WorkerPc Task)} {w : Nat} {old : WorkerPc Task} (hw : ws[w]? = some old)
    (pc : WorkerPc Task) :
    workersWork asleep (ws.set w pc) + old.work asleep = workersWork asleep ws + pc.work asleep :=
  ListUpdate.sum_map_set (WorkerPc.work asleep) hw pc

theorem WorkerPc.AtLock.work_set {ws : List (WorkerPc Task)} {w : Nat} {old : WorkerPc Task} (h : old.AtLock)
    (hw : ws[w]? = some old) (pc : WorkerPc Task) :
    workersWork asleep (ws.set w pc) + 1 = workersWork asleep ws + pc.work asleep := by
  have hset := workersWork_set asleep hw pc
  cases old with
  | locking => exact hset
  | woken => exact hset
  | _ => exact h.elim

theorem Notified.work_le {ws ws' : List (WorkerPc Task)} (h : Notified ws ws') :
    workersWork asleep ws' ≤ workersWork asleep ws + 1 := by
  cases h with
  | woke w hw =>
    have hset := workersWork_set asleep hw .woken
    simp only [WorkerPc.work] at hset
    omega
  | nobody => exact Nat.le_succ _

theorem Notified.length_eq {ws ws' : List (WorkerPc Task)} (h : Notified ws ws') : ws'.length = ws.length := by
  cases h with
  | woke w hw => exact List.length_set
  | nobody => rfl

theorem notifyAll_work_le (ws : List (WorkerPc Task)) :
    workersWork asleep (notifyAll ws) ≤ workersWork asleep ws + ws.length := by
  induction ws with
  | nil => exact Nat.le_refl _
  | cons pc ws ih =>
    have hpc : (rouse pc).work asleep ≤ pc.work asleep + 1 := by
      cases pc <;> simp [rouse,WorkerPc.work]
    simp only [workersWork,notifyAll,List.map_cons,List.sum_cons,List.length_cons] at ih ⊢
    omega

/-- Every step lowers the work. Either sleepers count nothing and none is woken for nothing, or
they count twice and none falls asleep. -/
theorem Effect.work_lt {numThreads pushes : Nat} {lateCalls : Bool} {s t : Pool Task}
    (he : Effect numThreads lateCalls s t) (hp : Phase numThreads s) (hpush : t.pushed.length ≤ pushes)
    (h : asleep = 0 ∧ ¬ s.SpuriousWake t ∨ asleep = 2 ∧ (s.tasks = [] → s.stop = true)) :
    t.work numThreads pushes asleep < s.work numThreads pushes asleep := by
  cases he with
  | spawn hn =>
    simp only [Pool.work,workersWork,List.length_append,List.length_singleton,List.map_append,List.sum_append,
      List.map_singleton,List.sum_singleton,WorkerPc.work]
    omega
  | enqueue task hn hd =>
    simp only [Pool.enqueueTask,List.length_append,List.length_singleton] at hpush
    simp only [Pool.work,Pool.enqueueTask,List.length_append,List.length_singleton]
    omega
  | notify ws hc hw =>
    have hle := hw.work_le asleep
    simp only [Pool.work,hw.length_eq]
    omega
  | sleep w pc hw hp' ht hs =>
    have hset := hp'.work_set asleep hw .asleep
    rcases h with ⟨rfl,_⟩ | ⟨_,hstop⟩
    · simp only [Pool.work,Pool.setWorker,List.length_set,WorkerPc.work] at hset ⊢
      omega
    · rw [hstop ht] at hs
      cases hs
  | exit w pc hw hp' ht hs =>
    have hset := hp'.work_set asleep hw .returned
    simp only [Pool.work,Pool.setWorker,List.length_set,WorkerPc.work] at hset ⊢
    omega
  | take w pc hw hp' task rest ht =>
    have hset := hp'.work_set asleep hw (.running s.taken.length task)
    simp only [Pool.work,Pool.setWorker,List.length_set,WorkerPc.work,ht,List.length_cons] at hset ⊢
    omega
  | wake w hw =>
    have hset := workersWork_set asleep hw .woken
    rcases h with ⟨_,hnone⟩ | ⟨rfl,_⟩
    · exact absurd ⟨w,hw,rfl⟩ hnone
    · simp only [Pool.work,Pool.setWorker,List.length_set,WorkerPc.work] at hset ⊢
      omega
  | taskEnqueue w occ self task hw =>
    have hset := workersWork_set asleep hw (.notifying occ self)
    simp only [Pool.enqueueTask,Pool.setWorker,List.length_append,List.length_singleton] at hpush
    simp only [Pool.work,Pool.enqueueTask,Pool.setWorker,List.length_append,List.length_singleton,List.length_set,
      WorkerPc.work] at hset ⊢
    omega
  | taskNotify w occ self hw ws hn =>
    have hle := hn.work_le asleep
    have hset := workersWork_set asleep (hn.busy hw) (.running occ self)
    simp only [Pool.work,List.length_set,hn.length_eq,WorkerPc.work] at hset ⊢
    omega
  | finish w occ self hw =>
    have hset := workersWork_set asleep hw .locking
    simp only [Pool.work,Pool.setWorker,List.length_set,WorkerPc.work] at hset ⊢
    omega
  | dtorStart hn hd =>
    simp only [Pool.work,hd,DtorPc.work]
    omega
  | dtorStop hd =>
    simp only [Pool.work,hd,DtorPc.work]
    omega
  | dtorNotifyAll hd =>
    have hle := notifyAll_work_le asleep s.workers
    have hlength : (notifyAll s.workers).length = s.workers.length := List.length_map _
    have hbuilt := hp.built (by simp [hd])
    simp only [Pool.work,hd,DtorPc.work,hlength]
    omega
  | dtorJoin i hd hw =>
    have hlt := (List.getElem?_eq_some_iff.mp hw).1
    have hbuilt := hp.built (by simp [hd])
    simp only [Pool.work,hd,DtorPc.work]
    omega
  | dtorReturn i hd hw =>
    simp only [Pool.work,hd,DtorPc.work]
    omega

end Work

theorem exists_notifyOne (ws : List (WorkerPc Task)) : ∃ target ws', notifyOne ws target = some ws' := by
  by_cases h : ws.any WorkerPc.isAsleep
  · obtain ⟨pc,hmem,hpc⟩ := List.any_eq_true.mp h
    obtain ⟨w,hw⟩ := List.mem_iff_getElem?.mp hmem
    cases pc with
    | asleep => exact ⟨some w,ws.set w .woken,by simp only [notifyOne,hw]⟩
    | _ => cases hpc
  · exact ⟨none,ws,if_neg h⟩

theorem Pool.exists_workerThread (s : Pool Task) (w : Nat) : ∃ t, s.workerThread w = some t := by
  rw [workerThread]
  cases s.tasks with
  | nil =>
    cases s.stop with
    | false => exact ⟨_,rfl⟩
    | true => exact ⟨_,rfl⟩
  | cons task rest =>
    rw [workerSection_cons]
    exact ⟨_,rfl⟩

theorem Pool.exists_worker_step (numThreads : Nat) (lateCalls : Bool) {s : Pool Task} {w : Nat}
    {pc : WorkerPc Task} (hw : s.workers[w]? = some pc) (hpc : pc ≠ .returned) :
    ∃ a t, s.step numThreads lateCalls a = some t := by
  cases pc with
  | locking =>
    obtain ⟨t,ht⟩ := s.exists_workerThread w
    exact ⟨.lock w,t,by simp only [step,hw,ht]⟩
  | asleep => exact ⟨.wake w,_,by simp only [step,hw]; rfl⟩
  | woken =>
    obtain ⟨t,ht⟩ := s.exists_workerThread w
    exact ⟨.lock w,t,by simp only [step,hw,ht]⟩
  | running occ task => exact ⟨.finish w,_,by simp only [step,hw]; rfl⟩
  | notifying occ task =>
    obtain ⟨target,ws,hn⟩ := exists_notifyOne s.workers
    exact ⟨.taskNotify w target,_,by simp only [step,hw,hn,Option.map_some]; rfl⟩
  | returned => exact absurd rfl hpc

theorem Pool.exists_step {numThreads : Nat} (lateCalls : Bool) {s : Pool Task}
    (hlength : s.workers.length ≤ numThreads) (hd : s.dtor ≠ .returned) :
    ∃ a t, s.step numThreads lateCalls a = some t := by
  cases hdtor : s.dtor with
  | notStarted =>
    rcases Nat.lt_or_eq_of_le hlength with hlt | heq
    · exact ⟨.spawn,_,if_pos hlt⟩
    · exact ⟨.dtorStart,_,if_pos ⟨heq,hdtor⟩⟩
  | locking => exact ⟨.dtorStop,_,if_pos hdtor⟩
  | notifying => exact ⟨.dtorNotifyAll,_,if_pos hdtor⟩
  | joining i =>
    cases hw : s.workers[i]? with
    | none => exact ⟨.dtorJoin,_,by simp only [step,hdtor,hw]; rfl⟩
    | some pc =>
      by_cases hpc : pc = .returned
      · exact ⟨.dtorJoin,_,by simp only [step,hdtor,hw,hpc]; rfl⟩
      · exact exists_worker_step numThreads lateCalls hw hpc
  | returned => exact absurd hdtor hd

theorem pool_workers_le {numThreads : Nat} {lateCalls : Bool} {s : Pool Task}
    (h : (system Task numThreads lateCalls).Reachable s) : s.workers.length ≤ numThreads := by
  refine pool_invariant (P := fun s => s.workers.length ≤ numThreads) (Nat.zero_le _) (fun s t hs he => ?_) h
  cases he with
  | spawn hn =>
    rw [List.length_append]
    exact hn
  | notify ws hc hw => exact hw.length_eq.trans_le hs
  | taskNotify w occ self hw ws hn => exact (List.length_set.trans hn.length_eq).trans_le hs
  | dtorNotifyAll hd => exact (List.length_map _).trans_le hs
  | sleep | exit | take | wake | taskEnqueue | finish => exact List.length_set.trans_le hs
  | _ => exact hs

theorem Effect.stop_stays {numThreads : Nat} {lateCalls : Bool} {s t : Pool Task}
    (he : Effect numThreads lateCalls s t) (h : s.stop = true) : t.stop = true := by
  cases he with
  | dtorStop => rfl
  | _ => exact h

section Runs
variable {numThreads pushes : Nat} {lateCalls : Bool} (e : (system Task numThreads lateCalls).Execution)
    (hpush : ∀ n, (e.state n).pushed.length ≤ pushes)
include hpush

private theorem step_work_lt (asleep : Nat) {n : Nat} {a : Action Task}
    (ha : (system Task numThreads lateCalls).step (e.state n) a = some (e.state (n+1)))
    (h : asleep = 0 ∧ ¬ (e.state n).SpuriousWake (e.state (n+1)) ∨
      asleep = 2 ∧ ((e.state n).tasks = [] → (e.state n).stop = true)) :
    (e.state (n+1)).work numThreads pushes asleep < (e.state n).work numThreads pushes asleep :=
  (Pool.step_effect a ha).work_lt asleep (pool_phase (e.reachable n)) (hpush (n+1)) h

omit hpush in
private theorem run_stopped {n m : Nat} (h : (e.state n).stop = true) (hm : n ≤ m) : (e.state m).stop = true := by
  induction hm with
  | refl => exact h
  | step _ ih =>
    rcases e.next _ with ⟨a,ha⟩ | ⟨_,hsame⟩
    · exact (Pool.step_effect a ha).stop_stays ih
    · rwa [Nat.succ_eq_add_one,hsame]

private theorem stop_reached {N : Nat} (hwake : ∀ n, N ≤ n →
    (e.state n).SpuriousWake (e.state (n+1)) → (e.state n).stop = true) : ∃ n, (e.state n).stop = true := by
  obtain ⟨n,_,hn⟩ := e.eventually_from (fun s => s.stop = true) (Pool.work numThreads pushes 0) N
    fun n hn hrun => by
    have hphase := pool_phase (e.reachable n)
    refine ⟨Pool.exists_step lateCalls (pool_workers_le (e.reachable n)) fun hd => ?_,fun a ha => ?_⟩
    · exact hrun (hphase.stopped (by simp [hd]) (by simp [hd]))
    · exact .inr (step_work_lt e hpush 0 ha (.inl ⟨rfl,fun h => hrun (hwake n hn h)⟩))
  exact ⟨n,hn⟩

private theorem destructor_returns {n : Nat} (hstop : (e.state n).stop = true) :
    ∃ m, n ≤ m ∧ (e.state m).dtor = .returned :=
  e.eventually_from (fun s => s.dtor = .returned) (Pool.work numThreads pushes 2) n fun m hm hd =>
    ⟨Pool.exists_step lateCalls (pool_workers_le (e.reachable m)) hd,fun _ ha =>
      .inr (step_work_lt e hpush 2 ha (.inr ⟨rfl,fun _ => run_stopped e hstop hm⟩))⟩

end Runs

/-- Finitely many tasks, and finitely many wakeups for nothing before stop is set: then in every
complete run the destructor returns, and all workers have returned before it. -/
theorem pool_shutdown_completes (numThreads pushes : Nat) (lateCalls : Bool)
    (e : (system Task numThreads lateCalls).Execution) (hpush : ∀ n, (e.state n).pushed.length ≤ pushes) (N : Nat)
    (hwake : ∀ n, N ≤ n → (e.state n).SpuriousWake (e.state (n+1)) → (e.state n).stop = true) :
    ∃ m, (e.state m).dtor = .returned ∧ (e.state m).workers = List.replicate numThreads .returned := by
  obtain ⟨n,hstop⟩ := stop_reached e hpush hwake
  obtain ⟨m,_,hd⟩ := destructor_returns e hpush hstop
  refine ⟨m,hd,List.eq_replicate_iff.mpr ⟨(pool_phase (e.reachable m)).built (by simp [hd]),fun pc hpc => ?_⟩⟩
  obtain ⟨w,hw⟩ := List.mem_iff_getElem?.mp hpc
  exact (pool_joining (e.reachable m)).complete hd w pc hw

/-- The run of `lateEnqueue` with a worker that is woken for nothing first. -/
def wokenForNothing : List (Action Nat) :=
  [.spawn,.lock 0,.wake 0,.lock 0,.enqueue 1,.notify (some 0),.lock 0,.dtorStart,.dtorStop,.taskEnqueue 0 2,
   .dtorNotifyAll,.taskNotify 0 none,.finish 0,.lock 0,.finish 0,.lock 0,.dtorJoin,.dtorJoin]

private theorem wokenForNothing_run : (system Nat 1 false).run {} wokenForNothing = some lateEnqueue := rfl

private theorem lateEnqueue_stuck : (system Nat 1 false).Stuck lateEnqueue := by
  intro a
  cases a with
  | lock w | wake w | taskEnqueue w task | taskNotify w target | finish w => cases w <;> rfl
  | _ => rfl

private theorem wokenForNothing_pushes (n : Nat) :
    ((system Nat 1 false).states {} wokenForNothing n).pushed.length ≤ 2 := by
  by_cases hn : wokenForNothing.length ≤ n
  · rw [System.states_of_length_le wokenForNothing_run hn]
    exact Nat.le_refl 2
  · have hall : ∀ n < 18, ((system Nat 1 false).states {} wokenForNothing n).pushed.length ≤ 2 := by decide
    exact hall n (Nat.lt_of_not_le hn)

theorem pool_shutdown_completes_woken : ∃ e : (system Nat 1 false).Execution,
    (e.state 2).SpuriousWake (e.state 3) ∧
    ∃ m, (e.state m).dtor = .returned ∧ (e.state m).workers = [.returned] := by
  refine ⟨.ofRun rfl wokenForNothing_run lateEnqueue_stuck,⟨0,rfl,rfl⟩,?_⟩
  refine pool_shutdown_completes 1 2 false _ wokenForNothing_pushes 18 fun n hn _ => ?_
  exact congrArg Pool.stop (System.states_of_length_le wokenForNothing_run hn)

/-- No task waits for ever: in every complete run with finitely many tasks, whoever is woken for
nothing, the queue is emptied again after every point, and every task pushed by then has been taken. -/
theorem pool_queue_drains (numThreads pushes : Nat) (hn : 1 ≤ numThreads)
    (e : (system Task numThreads false).Execution) (hpush : ∀ n, (e.state n).pushed.length ≤ pushes) (n : Nat) :
    ∃ m, n ≤ m ∧ (e.state m).tasks = [] ∧ (e.state m).taken.map Prod.snd = (e.state m).pushed := by
  obtain ⟨m,hm,hempty⟩ := e.eventually_from (fun s => s.tasks = []) (Pool.work numThreads pushes 2) n
    fun m _ hne => by
      obtain ⟨w,pc,hw,hpc⟩ := (pool_alert hn (e.reachable m)).live hne
      refine ⟨Pool.exists_worker_step numThreads false hw hpc,fun a ha => ?_⟩
      exact .inr (step_work_lt e hpush 2 ha (.inr ⟨rfl,fun h => absurd h hne⟩))
  have hfifo : (e.state m).pushed = (e.state m).taken.map Prod.snd ++ (e.state m).tasks :=
    (pool_dispatch_sound (e.reachable m)).fifo
  rw [hempty,List.append_nil] at hfifo
  exact ⟨m,hm,hempty,hfifo.symm⟩

theorem pool_queue_drains_woken : ∃ e : (system Nat 1 false).Execution, (e.state 5).tasks = [1] ∧
    ∃ m, 5 ≤ m ∧ (e.state m).tasks = [] ∧ (e.state m).taken.map Prod.snd = (e.state m).pushed :=
  ⟨.ofRun rfl wokenForNothing_run lateEnqueue_stuck,rfl,
    pool_queue_drains 1 2 (Nat.le_refl 1) _ wokenForNothing_pushes 5⟩

end MyCpp.ThreadPool
