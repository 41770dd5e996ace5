import MyCpp.Library.ListUpdate
import MyCpp.Library.TransitionSystem

/-! The batch workers of test.cxx on one shared queue. The lock_guard lives to the end of
the while body, so the mutex is held from the emptiness test through the batch and the
pause; the k-th call of sendRequest overall returns the k-th outcome. -/
namespace MyCpp.BatchRetry
open TransitionSystem

inductive Pc where
  | top
  | testing
  | batch (i : Int)
  | sending (i : Int) (request : String)
  | pausing
  | returned
  deriving DecidableEq

/-- One call of processBatch; the interval only sets how long it pauses. -/
structure Worker where
  batchSize : Int
  pc : Pc := .top
  deriving DecidableEq

/-- `sends` records each finished call of sendRequest with what it returned. -/
structure Retry where
  requestQueue : List String
  queueMutex : Option Nat := none
  workers : List Worker
  sends : List (String × Bool) := []
  deriving DecidableEq

/-- Requests whose send succeeded, in the order of their sends. -/
def successes (sends : List (String × Bool)) : List String := (sends.filter Prod.snd).map Prod.fst

namespace Pc

def Locked : Pc → Prop
  | .top => False
  | .returned => False
  | _ => True

/-- The request between its pop and the end of its sendRequest. -/
def inHand : Pc → List String
  | .sending _ request => [request]
  | _ => []

end Pc

namespace Retry

def moveTo (s : Retry) (w : Nat) (p : Worker) (pc : Pc) : Retry :=
  { s with workers := s.workers.set w { p with pc := pc } }

@[simp] theorem moveTo_requestQueue (s : Retry) (w : Nat) (p : Worker) (pc : Pc) :
    (s.moveTo w p pc).requestQueue = s.requestQueue := rfl
@[simp] theorem moveTo_queueMutex (s : Retry) (w : Nat) (p : Worker) (pc : Pc) :
    (s.moveTo w p pc).queueMutex = s.queueMutex := rfl
@[simp] theorem moveTo_sends (s : Retry) (w : Nat) (p : Worker) (pc : Pc) :
    (s.moveTo w p pc).sends = s.sends := rfl
theorem moveTo_self {s : Retry} {w : Nat} {p : Worker} (hw : s.workers[w]? = some p) (pc : Pc) :
    (s.moveTo w p pc).workers[w]? = some { p with pc := pc } :=
  List.getElem?_set_self (List.getElem?_eq_some_iff.mp hw).1

/-- One step of worker `w`. sendRequest returns and a failed request is pushed back in
one step; both happen under the mutex. -/
def processBatch (outcome : Nat → Bool) (s : Retry) (w : Nat) : Option Retry := do
  let p ← s.workers[w]?
  match p.pc with
  | .top =>
    if s.queueMutex = none then some { s.moveTo w p .testing with queueMutex := some w } else none
  | .testing =>
    if s.requestQueue.isEmpty then some { s.moveTo w p .returned with queueMutex := none }
    else some (s.moveTo w p (.batch 0))
  | .batch i =>
    if i < p.batchSize && !s.requestQueue.isEmpty then match s.requestQueue with
      | request :: rest => some { s.moveTo w p (.sending i request) with requestQueue := rest }
      | [] => none
    else some (s.moveTo w p .pausing)
  | .sending i request =>
    let ok := outcome s.sends.length
    some { s.moveTo w p (.batch (i+1)) with
      requestQueue := if ok then s.requestQueue else s.requestQueue ++ [request]
      sends := s.sends ++ [(request,ok)] }
  | .pausing => some { s.moveTo w p .top with queueMutex := none }
  | .returned => none

/-- Requests popped by some worker whose sendRequest has not returned. -/
def inFlight (s : Retry) : List String := s.workers.flatMap fun p => p.pc.inHand

def succeeded (s : Retry) : List String := successes s.sends

end Retry

/-- Any number of workers, each with its own batch size, over one initial queue. -/
def system (initial : List String) (batchSizes : List Int) (outcome : Nat → Bool) :
    System Retry Nat where
  init s := s = { requestQueue := initial, workers := batchSizes.map fun b => { batchSize := b } }
  step := Retry.processBatch outcome

/-- The queue that main fills and its single worker. -/
def mainQueue : List String := (List.range 100).map fun i => "Request " ++ toString i

def mainSystem (outcome : Nat → Bool) : System Retry Nat := system mainQueue [5] outcome

end MyCpp.BatchRetry
