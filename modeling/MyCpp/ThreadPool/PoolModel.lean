import MyCpp.Library.FifoDispatch

/-! The thread pool of rate.cxx as a step relation. Every mutex-guarded section is one
atomic step; condition.wait falls asleep in the step in which it releases the mutex.
Notifications are separate steps, issued outside the mutex as in the source. -/
namespace MyCpp.ThreadPool
open TransitionSystem FifoDispatch

/-- Where a thread stands in worker_thread. A woken thread has left condition.wait but
has not re-acquired the mutex. The number beside a task is its place among all tasks
taken so far; the code never reads it. -/
inductive WorkerPc (Task : Type) where
  | locking
  | asleep
  | woken
  | running (occ : Nat) (task : Task)
  | notifying (occ : Nat) (task : Task)
  | returned
  deriving DecidableEq

/-- The destructor: stop is set under the lock, then notify_all, then the join loop. -/
inductive DtorPc where
  | notStarted
  | locking
  | notifying
  | joining (next : Nat)
  | returned
  deriving DecidableEq

/-- The members of ThreadPool with the positions of its threads. `callers` counts the
external enqueue_task calls between their push and their notify_one; the last three
fields record history. -/
structure Pool (Task : Type) where
  workers : List (WorkerPc Task) := []
  tasks : List Task := []
  stop : Bool := false
  callers : Nat := 0
  dtor : DtorPc := .notStarted
  pushed : List Task := []
  taken : List (Nat × Task) := []
  executed : List (Execution Nat Task) := []
  deriving DecidableEq

/-- Every choice of the scheduler and of the running tasks is part of the action: which
thread moves, which sleeper a notification wakes, what a task enqueues and when. -/
inductive Action (Task : Type) where
  | spawn
  | enqueue (task : Task)
  | notify (target : Option Nat)
  | lock (worker : Nat)
  | wake (worker : Nat)
  | taskEnqueue (worker : Nat) (task : Task)
  | taskNotify (worker : Nat) (target : Option Nat)
  | finish (worker : Nat)
  | dtorStart
  | dtorStop
  | dtorNotifyAll
  | dtorJoin
  deriving DecidableEq

variable {Task : Type}

namespace WorkerPc

def isAsleep : WorkerPc Task → Bool
  | .asleep => true
  | _ => false

def held : WorkerPc Task → Option (Nat × Task)
  | .running occ task => some (occ,task)
  | .notifying occ task => some (occ,task)
  | _ => none

/-- Neither asleep in condition.wait nor returned from worker_thread. -/
def Active : WorkerPc Task → Prop
  | .asleep => False
  | .returned => False
  | _ => True

end WorkerPc

/-- How the guarded block of worker_thread ends. -/
inductive Fetch (Task : Type) where
  | wait
  | exit
  | take (task : Task) (rest : List Task)
  | emptyFront

/-- The predicate handed to condition.wait. -/
def wakeCondition (tasks : List Task) (stop : Bool) : Bool := !tasks.isEmpty || stop

/-- The guarded block of worker_thread: the wait predicate, the exit test and the pop. -/
def workerSection (tasks : List Task) (stop : Bool) : Fetch Task :=
  if wakeCondition tasks stop then
    if stop && tasks.isEmpty then .exit
    else match tasks with
      | task :: rest => .take task rest
      | [] => .emptyFront
  else .wait

@[simp] theorem workerSection_nil_running : workerSection ([] : List Task) false = .wait := rfl
@[simp] theorem workerSection_nil_stopped : workerSection ([] : List Task) true = .exit := rfl
@[simp] theorem workerSection_cons (task : Task) (rest : List Task) (stop : Bool) :
    workerSection (task :: rest) stop = .take task rest := by
  cases stop <;> rfl

/-- notify_one wakes the chosen sleeper, or nobody when nobody sleeps. -/
def notifyOne (workers : List (WorkerPc Task)) : Option Nat → Option (List (WorkerPc Task))
  | some w => match workers[w]? with
    | some .asleep => some (workers.set w .woken)
    | _ => none
  | none => if workers.any WorkerPc.isAsleep then none else some workers

def rouse : WorkerPc Task → WorkerPc Task
  | .asleep => .woken
  | pc => pc

def notifyAll (workers : List (WorkerPc Task)) : List (WorkerPc Task) := workers.map rouse

namespace Pool

def setWorker (s : Pool Task) (w : Nat) (pc : WorkerPc Task) : Pool Task :=
  { s with workers := s.workers.set w pc }

/-- The guarded block of enqueue_task, whoever calls it. -/
def enqueueTask (s : Pool Task) (task : Task) : Pool Task :=
  { s with tasks := s.tasks ++ [task], pushed := s.pushed ++ [task] }

/-- One pass of a worker through its guarded block. -/
def workerThread (s : Pool Task) (w : Nat) : Option (Pool Task) :=
  match workerSection s.tasks s.stop with
  | .wait => some (s.setWorker w .asleep)
  | .exit => some (s.setWorker w .returned)
  | .take task rest => some { s.setWorker w (.running s.taken.length task) with
      tasks := rest
      taken := s.taken ++ [(w,task)] }
  | .emptyFront => none

/-- External calls of enqueue_task are made between the constructor and the end of the
destructor; without `lateCalls` they push before the destructor starts. Their notify_one
may come at any later time. -/
def step (numThreads : Nat) (lateCalls : Bool) (s : Pool Task) : Action Task → Option (Pool Task)
  | .spawn =>
    if s.workers.length < numThreads then some { s with workers := s.workers ++ [.locking] }
    else none
  | .enqueue task =>
    if s.workers.length = numThreads ∧ s.dtor ≠ .returned ∧ (lateCalls = true ∨ s.dtor = .notStarted) then
      some { s.enqueueTask task with callers := s.callers + 1 }
    else none
  | .notify target =>
    if 0 < s.callers then
      (notifyOne s.workers target).map fun ws => { s with workers := ws, callers := s.callers - 1 }
    else none
  | .lock w => match s.workers[w]? with
    | some .locking => s.workerThread w
    | some .woken => s.workerThread w
    | _ => none
  | .wake w => match s.workers[w]? with
    | some .asleep => some (s.setWorker w .woken)
    | _ => none
  | .taskEnqueue w task => match s.workers[w]? with
    | some (.running occ self) => some ((s.setWorker w (.notifying occ self)).enqueueTask task)
    | _ => none
  | .taskNotify w target => match s.workers[w]? with
    | some (.notifying occ self) => (notifyOne s.workers target).map fun ws =>
        { s with workers := ws.set w (.running occ self) }
    | _ => none
  | .finish w => match s.workers[w]? with
    | some (.running occ self) => some { s.setWorker w .locking with
        executed := s.executed ++ [⟨w,occ,self⟩] }
    | _ => none
  | .dtorStart =>
    if s.workers.length = numThreads ∧ s.dtor = .notStarted then some { s with dtor := .locking }
    else none
  | .dtorStop =>
    if s.dtor = .locking then some { s with stop := true, dtor := .notifying } else none
  | .dtorNotifyAll =>
    if s.dtor = .notifying then
      some { s with workers := notifyAll s.workers, dtor := .joining 0 }
    else none
  | .dtorJoin => match s.dtor with
    | .joining i => match s.workers[i]? with
      | some .returned => some { s with dtor := .joining (i+1) }
      | some _ => none
      | none => some { s with dtor := .returned }
    | _ => none

end Pool

/-- The pool built by ThreadPool(numThreads), before its first thread is started. -/
def system (Task : Type) (numThreads : Nat) (lateCalls : Bool) : System (Pool Task) (Action Task) where
  init s := s = {}
  step := Pool.step numThreads lateCalls

end MyCpp.ThreadPool
