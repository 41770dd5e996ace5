import MyCpp.Library.TransitionSystem
import MyCpp.Library.RemoveScan

/-! sendRequestsWithThreadPool of fast_client.cxx, against requests that complete at any
time. TOTAL_REQUESTS and REQUESTS_PER_SECOND are parameters, and std::async always starts
its task. -/
namespace MyCpp.LoadGenerator
open TransitionSystem RemoveScan

def THREAD_POOL_SIZE : Nat := 32

def REQUESTS_PER_SECOND : Nat := 100

def TOTAL_REQUESTS : Nat := 10000

/-- The next statement. `findReady` and `remove` are the two loops of std::remove_if, the
second with the place to move to; `waitFor` is the loop behind the while. -/
inductive Pc where
  | whileTest
  | forTest (i : Nat)
  | push (i : Nat)
  | increment (i : Nat)
  | sleep
  | findReady (it : Nat)
  | remove (result it : Nat)
  | erase (result : Nat)
  | waitFor (it : Nat)
  | returned
  deriving DecidableEq

/-- A future is the request it belongs to, or `none` once it was moved from. `started` has
the calls of std::async in their order, `complete` the requests that have returned, and
`polled` those that a wait_for of the cleanup found ready. -/
structure Client where
  pc : Pc := .whileTest
  requestCounter : Nat := 0
  futures : List (Option Nat) := []
  started : List Nat := []
  complete : Nat → Bool := fun _ => false
  polled : List Nat := []

section
variable (total perSecond : Nat)

/-- One step of std::remove_if at the future `fut` in slot `it`. -/
def removeIf (s : Client) : Option Client :=
  match s.pc with
  | .findReady it => match s.futures[it]? with
    | some (some r) =>
      if s.complete r then some { s with pc := .remove it (it+1), polled := s.polled ++ [r] }
      else some { s with pc := .findReady (it+1) }
    | some none => none
    | none => some { s with pc := .erase it }
  | .remove result it => match s.futures[it]? with
    | some (some r) =>
      if s.complete r then some { s with pc := .remove result (it+1), polled := s.polled ++ [r] }
      else some { s with
        futures := (s.futures.set result (some r)).set it none
        pc := .remove (result+1) (it+1) }
    | some none => none
    | none => some { s with pc := .erase result }
  | _ => none

/-- One step of the function. Looking at a future that was moved from is undefined, so it
has no step; fut.wait() has none before its request is complete. -/
def sendRequestsWithThreadPool (s : Client) : Option Client :=
  match s.pc with
  | .whileTest =>
    if s.requestCounter < total then some { s with pc := .forTest 0 } else some { s with pc := .waitFor 0 }
  | .forTest i =>
    if i < perSecond then
      if total ≤ s.requestCounter then some { s with pc := .sleep } else some { s with pc := .push i }
    else some { s with pc := .sleep }
  | .push i => some { s with
      futures := s.futures ++ [some s.requestCounter]
      started := s.started ++ [s.requestCounter]
      pc := .increment i }
  | .increment i => some { s with requestCounter := s.requestCounter + 1, pc := .forTest (i+1) }
  | .sleep => some { s with pc := .findReady 0 }
  | .findReady _ => removeIf s
  | .remove _ _ => removeIf s
  | .erase result => some { s with futures := s.futures.take result, pc := .whileTest }
  | .waitFor it => match s.futures[it]? with
    | some (some r) => if s.complete r then some { s with pc := .waitFor (it+1) } else none
    | some none => none
    | none => some { s with pc := .returned }
  | .returned => none

/-- A request that was started returns from sendRequest. -/
def completeRequest (r : Nat) (s : Client) : Option Client :=
  if r ∈ s.started ∧ s.complete r = false then
    some { s with complete := Function.update s.complete r true }
  else none

inductive Action where
  | client
  | complete (r : Nat)
  deriving DecidableEq

def system : System Client Action where
  init s := s = {}
  step s
    | .client => sendRequestsWithThreadPool total perSecond s
    | .complete r => completeRequest r s

inductive Effect (s : Client) : Client → Prop where
  | enter (hpc : s.pc = .whileTest) (hc : s.requestCounter < total) : Effect s { s with pc := .forTest 0 }
  | leave (hpc : s.pc = .whileTest) (hc : total ≤ s.requestCounter) : Effect s { s with pc := .waitFor 0 }
  | again (i : Nat) (hpc : s.pc = .forTest i) (hi : i < perSecond) (hc : s.requestCounter < total) :
      Effect s { s with pc := .push i }
  | batch (i : Nat) (hpc : s.pc = .forTest i) (hi : perSecond ≤ i ∨ total ≤ s.requestCounter) :
      Effect s { s with pc := .sleep }
  | push (i : Nat) (hpc : s.pc = .push i) :
      Effect s { s with
        futures := s.futures ++ [some s.requestCounter]
        started := s.started ++ [s.requestCounter]
        pc := .increment i }
  | increment (i : Nat) (hpc : s.pc = .increment i) :
      Effect s { s with requestCounter := s.requestCounter + 1, pc := .forTest (i+1) }
  | sleep (hpc : s.pc = .sleep) : Effect s { s with pc := .findReady 0 }
  | pass (it r : Nat) (hpc : s.pc = .findReady it) (hr : s.futures[it]? = some (some r))
      (hc : s.complete r = false) : Effect s { s with pc := .findReady (it+1) }
  | found (it r : Nat) (hpc : s.pc = .findReady it) (hr : s.futures[it]? = some (some r))
      (hc : s.complete r = true) :
      Effect s { s with pc := .remove it (it+1), polled := s.polled ++ [r] }
  | foundNone (it : Nat) (hpc : s.pc = .findReady it) (hr : s.futures[it]? = none) :
      Effect s { s with pc := .erase it }
  | skip (result it r : Nat) (hpc : s.pc = .remove result it) (hr : s.futures[it]? = some (some r))
      (hc : s.complete r = true) :
      Effect s { s with pc := .remove result (it+1), polled := s.polled ++ [r] }
  | move (result it r : Nat) (hpc : s.pc = .remove result it) (hr : s.futures[it]? = some (some r))
      (hc : s.complete r = false) :
      Effect s { s with
        futures := (s.futures.set result (some r)).set it none
        pc := .remove (result+1) (it+1) }
  | scanned (result it : Nat) (hpc : s.pc = .remove result it) (hr : s.futures[it]? = none) :
      Effect s { s with pc := .erase result }
  | erase (result : Nat) (hpc : s.pc = .erase result) :
      Effect s { s with futures := s.futures.take result, pc := .whileTest }
  | waited (it r : Nat) (hpc : s.pc = .waitFor it) (hr : s.futures[it]? = some (some r))
      (hc : s.complete r = true) : Effect s { s with pc := .waitFor (it+1) }
  | returns (it : Nat) (hpc : s.pc = .waitFor it) (hr : s.futures[it]? = none) :
      Effect s { s with pc := .returned }
  | complete (r : Nat) (hr : r ∈ s.started) (hc : s.complete r = false) :
      Effect s { s with complete := Function.update s.complete r true }

private theorem removeIf_effect {s t : Client} (h : removeIf s = some t) : Effect total perSecond s t := by
  rw [removeIf] at h
  split at h
  · rename_i it hpc
    split at h
    · rename_i r hr
      split at h
      · rename_i hc
        cases h
        exact .found it r hpc hr hc
      · rename_i hc
        cases h
        exact .pass it r hpc hr (Bool.not_eq_true _ ▸ hc)
    · cases h
    · rename_i hr
      cases h
      exact .foundNone it hpc hr
  · rename_i result it hpc
    split at h
    · rename_i r hr
      split at h
      · rename_i hc
        cases h
        exact .skip result it r hpc hr hc
      · rename_i hc
        cases h
        exact .move result it r hpc hr (Bool.not_eq_true _ ▸ hc)
    · cases h
    · rename_i hr
      cases h
      exact .scanned result it hpc hr
  · cases h

theorem step_effect {s t : Client} {a : Action} (h : (system total perSecond).step s a = some t) :
    Effect total perSecond s t := by
  cases a with
  | complete r =>
    change completeRequest r s = some t at h
    rw [completeRequest] at h
    split at h
    · rename_i hr
      cases h
      exact .complete r hr.1 hr.2
    · cases h
  | client =>
    change sendRequestsWithThreadPool total perSecond s = some t at h
    rw [sendRequestsWithThreadPool] at h
    split at h
    · rename_i hpc
      split at h
      · rename_i hc
        cases h
        exact .enter hpc hc
      · rename_i hc
        cases h
        exact .leave hpc (Nat.le_of_not_lt hc)
    · rename_i i hpc
      split at h
      · rename_i hi
        split at h
        · rename_i hc
          cases h
          exact .batch i hpc (.inr hc)
        · rename_i hc
          cases h
          exact .again i hpc hi (Nat.lt_of_not_le hc)
      · rename_i hi
        cases h
        exact .batch i hpc (.inl (Nat.le_of_not_lt hi))
    · rename_i i hpc
      cases h
      exact .push i hpc
    · rename_i i hpc
      cases h
      exact .increment i hpc
    · rename_i hpc
      cases h
      exact .sleep hpc
    · exact removeIf_effect total perSecond h
    · exact removeIf_effect total perSecond h
    · rename_i result hpc
      cases h
      exact .erase result hpc
    · rename_i it hpc
      split at h
      · rename_i r hr
        split at h
        · rename_i hc
          cases h
          exact .waited it r hpc hr hc
        · cases h
      · cases h
      · rename_i hr
        cases h
        exact .returns it hpc hr
    · cases h

end

end MyCpp.LoadGenerator
