import MyCpp.ThreadPool.PoolModel

/-! The two versions of send_requests_concurrently: a thread for each request in rate2.cxx,
the ThreadPool in rate3.cxx with its enqueue_task taking a std::function<void()>. A request
is its id. -/
namespace MyCpp.RateDrivers
open TransitionSystem ThreadPool

namespace Rate2

/-- The next statement: the loop that spawns, the loop that joins, past end_time. -/
inductive Pc where
  | spawn (i : Nat)
  | join (i : Nat)
  | ended
  deriving DecidableEq

/-- `threads` says of each thread whether its send_request has returned, `completed` has the
ids in the order in which it did; `atEnd` is what was completed when end_time was taken. -/
structure Driver where
  pc : Pc := .spawn 0
  threads : List Bool := []
  completed : List Nat := []
  atEnd : Option (List Nat) := none
  deriving DecidableEq

inductive Action where
  | driver
  | finish (i : Nat)
  deriving DecidableEq

def sendRequestsConcurrently (numRequests : Nat) (s : Driver) : Option Driver :=
  match s.pc with
  | .spawn i =>
    if i < numRequests then some { s with threads := s.threads ++ [false], pc := .spawn (i+1) }
    else some { s with pc := .join 0 }
  | .join i => match s.threads[i]? with
    | some true => some { s with pc := .join (i+1) }
    | some false => none
    | none => some { s with pc := .ended, atEnd := some s.completed }
  | .ended => none

def step (numRequests : Nat) (s : Driver) : Action → Option Driver
  | .driver => sendRequestsConcurrently numRequests s
  | .finish i => match s.threads[i]? with
    | some false => some { s with threads := s.threads.set i true, completed := s.completed ++ [i] }
    | _ => none

def system (numRequests : Nat) : System Driver Action where
  init s := s = {}
  step := step numRequests

end Rate2

namespace Rate3

/-- The constructor of the pool, the loop with the two halves of enqueue_task, and past
end_time, where the destructor of the pool runs. -/
inductive Pc where
  | constructing
  | loop (i : Nat)
  | notifying (i : Nat)
  | ended
  deriving DecidableEq

structure Driver where
  pc : Pc := .constructing
  pool : Pool Nat := {}
  atEnd : Option (List Nat) := none
  deriving DecidableEq

def numThreads : Nat := 4

inductive Action where
  | spawn
  | startTimer
  | enqueue
  | notify (target : Option Nat)
  | endTimer
  | lock (worker : Nat)
  | wake (worker : Nat)
  | finish (worker : Nat)
  | dtorStart
  | dtorStop
  | dtorNotifyAll
  | dtorJoin
  deriving DecidableEq

/-- The ids whose send_request has been executed to completion. -/
def Driver.completed (s : Driver) : List Nat := s.pool.executed.map fun e => e.task

/-- An action of the pool, with the place where it leaves the driver. -/
def Driver.act (s : Driver) (a : ThreadPool.Action Nat) (pc : Pc) : Option Driver :=
  (s.pool.step numThreads false a).map fun pool => { s with pool := pool, pc := pc }

/-- The driver's own steps and those of the pool's threads; the tasks enqueue nothing. -/
def step (numRequests : Nat) (s : Driver) : Action → Option Driver
  | .spawn => if s.pc = .constructing then s.act .spawn .constructing else none
  | .startTimer =>
    if s.pc = .constructing ∧ s.pool.workers.length = numThreads then some { s with pc := .loop 0 } else none
  | .enqueue => match s.pc with
    | .loop i => if i < numRequests then s.act (.enqueue i) (.notifying i) else none
    | _ => none
  | .notify target => match s.pc with
    | .notifying i => s.act (.notify target) (.loop (i+1))
    | _ => none
  | .endTimer => match s.pc with
    | .loop i => if i < numRequests then none else some { s with pc := .ended, atEnd := some s.completed }
    | _ => none
  | .lock w => s.act (.lock w) s.pc
  | .wake w => s.act (.wake w) s.pc
  | .finish w => s.act (.finish w) s.pc
  | .dtorStart => if s.pc = .ended then s.act .dtorStart .ended else none
  | .dtorStop => if s.pc = .ended then s.act .dtorStop .ended else none
  | .dtorNotifyAll => if s.pc = .ended then s.act .dtorNotifyAll .ended else none
  | .dtorJoin => if s.pc = .ended then s.act .dtorJoin .ended else none

def system (numRequests : Nat) : System Driver Action where
  init s := s = {}
  step := step numRequests

end Rate3

/-- Every request was executed once when end_time was taken. -/
def AllSent (numRequests : Nat) (atEnd : Option (List Nat)) : Prop :=
  ∀ ids, atEnd = some ids → ids.Perm (List.range numRequests)

end MyCpp.RateDrivers
