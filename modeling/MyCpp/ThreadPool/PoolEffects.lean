import MyCpp.ThreadPool.PoolModel

/-! What one step of the pool can do, guards included. Every invariant of the pool is
proved from this list and never from the step function itself. -/
namespace MyCpp.ThreadPool
open TransitionSystem FifoDispatch
variable {Task : Type}

/-- Outcome of one notify_one: a sleeper was woken, or there was none. -/
inductive Notified (ws : List (WorkerPc Task)) : List (WorkerPc Task) → Prop where
  | woke (w : Nat) (hw : ws[w]? = some .asleep) : Notified ws (ws.set w .woken)
  | nobody (hn : ∀ w : Nat, ws[w]? ≠ some WorkerPc.asleep) : Notified ws ws

theorem notifyOne_notified {ws ws' : List (WorkerPc Task)} {target : Option Nat}
    (h : notifyOne ws target = some ws') : Notified ws ws' := by
  cases target with
  | some w =>
    simp only [notifyOne] at h
    split at h
    · rename_i hw
      cases h
      exact .woke w hw
    · cases h
  | none =>
    simp only [notifyOne] at h
    split at h
    · cases h
    · rename_i ha
      cases h
      refine .nobody fun w hw => ha (List.any_eq_true.mpr ?_)
      exact ⟨.asleep,List.mem_of_getElem? hw,rfl⟩

/-- A worker about to acquire the mutex, at the loop head or out of condition.wait. -/
def WorkerPc.AtLock : WorkerPc Task → Prop
  | .locking => True
  | .woken => True
  | _ => False

inductive Effect (numThreads : Nat) (lateCalls : Bool) (s : Pool Task) : Pool Task → Prop where
  | spawn (hn : s.workers.length < numThreads) :
      Effect numThreads lateCalls s { s with workers := s.workers ++ [.locking] }
  | enqueue (task : Task) (hn : s.workers.length = numThreads)
      (hd : lateCalls = true ∨ s.dtor = .notStarted) :
      Effect numThreads lateCalls s { s.enqueueTask task with callers := s.callers + 1 }
  | notify (ws : List (WorkerPc Task)) (hc : 0 < s.callers) (hw : Notified s.workers ws) :
      Effect numThreads lateCalls s { s with workers := ws, callers := s.callers - 1 }
  | sleep (w : Nat) (pc : WorkerPc Task) (hw : s.workers[w]? = some pc) (hp : pc.AtLock)
      (ht : s.tasks = []) (hs : s.stop = false) : Effect numThreads lateCalls s (s.setWorker w .asleep)
  | exit (w : Nat) (pc : WorkerPc Task) (hw : s.workers[w]? = some pc) (hp : pc.AtLock)
      (ht : s.tasks = []) (hs : s.stop = true) : Effect numThreads lateCalls s (s.setWorker w .returned)
  | take (w : Nat) (pc : WorkerPc Task) (hw : s.workers[w]? = some pc) (hp : pc.AtLock)
      (task : Task) (rest : List Task) (ht : s.tasks = task :: rest) :
      Effect numThreads lateCalls s { s.setWorker w (.running s.taken.length task) with
        tasks := rest
        taken := s.taken ++ [(w,task)] }
  | wake (w : Nat) (hw : s.workers[w]? = some .asleep) :
      Effect numThreads lateCalls s (s.setWorker w .woken)
  | taskEnqueue (w occ : Nat) (self task : Task) (hw : s.workers[w]? = some (.running occ self)) :
      Effect numThreads lateCalls s ((s.setWorker w (.notifying occ self)).enqueueTask task)
  | taskNotify (w occ : Nat) (self : Task) (hw : s.workers[w]? = some (.notifying occ self))
      (ws : List (WorkerPc Task)) (hn : Notified s.workers ws) :
      Effect numThreads lateCalls s { s with workers := ws.set w (.running occ self) }
  | finish (w occ : Nat) (self : Task) (hw : s.workers[w]? = some (.running occ self)) :
      Effect numThreads lateCalls s { s.setWorker w .locking with
        executed := s.executed ++ [⟨w,occ,self⟩] }
  | dtorStart (hn : s.workers.length = numThreads) (hd : s.dtor = .notStarted) :
      Effect numThreads lateCalls s { s with dtor := .locking }
  | dtorStop (hd : s.dtor = .locking) :
      Effect numThreads lateCalls s { s with stop := true, dtor := .notifying }
  | dtorNotifyAll (hd : s.dtor = .notifying) :
      Effect numThreads lateCalls s { s with workers := notifyAll s.workers, dtor := .joining 0 }
  | dtorJoin (i : Nat) (hd : s.dtor = .joining i) (hw : s.workers[i]? = some .returned) :
      Effect numThreads lateCalls s { s with dtor := .joining (i+1) }
  | dtorReturn (i : Nat) (hd : s.dtor = .joining i) (hw : s.workers[i]? = none) :
      Effect numThreads lateCalls s { s with dtor := .returned }

private theorem workerThread_effect {numThreads w : Nat} {lateCalls : Bool} {pc : WorkerPc Task} {s t : Pool Task}
    (hw : s.workers[w]? = some pc) (hp : pc.AtLock) (h : s.workerThread w = some t) :
    Effect numThreads lateCalls s t := by
  unfold Pool.workerThread at h
  cases ht : s.tasks with
  | nil =>
    cases hs : s.stop with
    | false =>
      simp only [ht,hs,workerSection_nil_running] at h
      cases h
      exact .sleep w pc hw hp ht hs
    | true =>
      simp only [ht,hs,workerSection_nil_stopped] at h
      cases h
      exact .exit w pc hw hp ht hs
  | cons task rest =>
    simp only [ht,workerSection_cons] at h
    cases h
    exact .take w pc hw hp task rest ht

theorem Pool.step_effect {numThreads : Nat} {lateCalls : Bool} {s t : Pool Task} (a : Action Task)
    (h : s.step numThreads lateCalls a = some t) : Effect numThreads lateCalls s t := by
  cases a with
  | spawn =>
    simp only [step, Option.ite_none_right_eq_some, Option.some.injEq] at h
    obtain ⟨hn,rfl⟩ := h
    exact .spawn hn
  | enqueue task =>
    simp only [step, Option.ite_none_right_eq_some, Option.some.injEq] at h
    obtain ⟨⟨hn,_,hd⟩,rfl⟩ := h
    exact .enqueue task hn hd
  | notify target =>
    simp only [step, Option.ite_none_right_eq_some, Option.map_eq_some_iff] at h
    obtain ⟨hc,ws,hw,rfl⟩ := h
    exact .notify ws hc (notifyOne_notified hw)
  | lock w =>
    simp only [step] at h
    split at h
    · rename_i hw
      exact workerThread_effect hw trivial h
    · rename_i hw
      exact workerThread_effect hw trivial h
    · cases h
  | wake w =>
    simp only [step] at h
    split at h
    · rename_i hw
      cases h
      exact .wake w hw
    · cases h
  | taskEnqueue w task =>
    simp only [step] at h
    split at h
    · rename_i occ self hw
      cases h
      exact .taskEnqueue w occ self task hw
    · cases h
  | taskNotify w target =>
    simp only [step] at h
    split at h
    · rename_i occ self hw
      obtain ⟨ws,hn,rfl⟩ := Option.map_eq_some_iff.mp h
      exact .taskNotify w occ self hw ws (notifyOne_notified hn)
    · cases h
  | finish w =>
    simp only [step] at h
    split at h
    · rename_i occ self hw
      cases h
      exact .finish w occ self hw
    · cases h
  | dtorStart =>
    simp only [step, Option.ite_none_right_eq_some, Option.some.injEq] at h
    obtain ⟨⟨hn,hd⟩,rfl⟩ := h
    exact .dtorStart hn hd
  | dtorStop =>
    simp only [step, Option.ite_none_right_eq_some, Option.some.injEq] at h
    obtain ⟨hd,rfl⟩ := h
    exact .dtorStop hd
  | dtorNotifyAll =>
    simp only [step, Option.ite_none_right_eq_some, Option.some.injEq] at h
    obtain ⟨hd,rfl⟩ := h
    exact .dtorNotifyAll hd
  | dtorJoin =>
    simp only [step] at h
    split at h
    · rename_i i hd
      split at h
      · rename_i hw
        cases h
        exact .dtorJoin i hd hw
      · cases h
      · rename_i hw
        cases h
        exact .dtorReturn i hd hw
    · cases h

/-- Invariants of the pool are proved one effect at a time. -/
theorem pool_invariant {numThreads : Nat} {lateCalls : Bool} {P : Pool Task → Prop} (hi : P {})
    (hn : ∀ s t, P s → Effect numThreads lateCalls s t → P t) {s : Pool Task}
    (h : (system Task numThreads lateCalls).Reachable s) : P s :=
  System.invariant (by rintro s rfl; exact hi)
    (fun s a t _ hs ht => hn s t hs (Pool.step_effect a ht)) h

end MyCpp.ThreadPool
