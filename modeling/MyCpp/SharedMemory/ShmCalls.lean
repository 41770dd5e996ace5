import Mathlib.Data.List.Range
import MyCpp.SharedMemory.ShmModel

/-! One call that runs while the other threads stand still: the lock, the bytes of the
memcpy one after the other, and the last statement. -/
namespace MyCpp.SharedMemory
open TransitionSystem ErrorCheckMutex

/-- The segment once the first `j` bytes of the memcpy are copied. -/
def Call.segmentAfter (call : Call) (segment : Nat → UInt8) (j : Nat) : Nat → UInt8 :=
  match call with
  | .write dataIn => fun i => if i < j then dataIn[i]?.getD 0 else segment i
  | .read _ => segment

/-- The bytes stored through dataOut by then. -/
def Call.outAfter (call : Call) (segment : Nat → UInt8) (j : Nat) : List UInt8 :=
  match call with
  | .write _ => []
  | .read _ => (List.range j).map segment

theorem Call.segmentAfter_zero (call : Call) (segment : Nat → UInt8) :
    call.segmentAfter segment 0 = segment := by
  cases call with
  | write dataIn => rfl
  | read len => rfl

theorem Call.outAfter_zero (call : Call) (segment : Nat → UInt8) : call.outAfter segment 0 = [] := by
  cases call with
  | write dataIn => rfl
  | read len => rfl

/-- The call alone, `j` bytes into its memcpy. -/
def during (s : Shm) (t : Nat) (call : Call) (j : Nat) : Shm := { s with
  segment := call.segmentAfter s.segment j
  running := Function.update s.running t
    (some { call := call, pc := .copy j, dataOut := call.outAfter s.segment j }) }

theorem during_step (process : Nat → Nat) (s : Shm) (t : Nat) (call : Call) {j : Nat} (hj : j < call.size) :
    threadStep process (during s t call j) t = some (during s t call (j+1)) := by
  cases call with
  | write dataIn =>
    have hseg : Function.update ((Call.write dataIn).segmentAfter s.segment j) j (dataIn[j]?.getD 0) =
        (Call.write dataIn).segmentAfter s.segment (j+1) := by
      funext i
      by_cases hi : i = j
      · subst hi
        simp [Call.segmentAfter]
      · rw [Function.update_of_ne hi]
        have hlt : i < j + 1 ↔ i < j := by omega
        simp only [Call.segmentAfter,hlt]
    simp [threadStep,during,hj,copyByte,hseg,Call.outAfter]
  | read len =>
    simp [threadStep,during,hj,copyByte,Call.segmentAfter,Call.outAfter,List.range_succ]

theorem during_run (process : Nat → Nat) (s : Shm) (t : Nat) (call : Call) (k : Nat) {j : Nat}
    (hj : j + k ≤ call.size) :
    (system process).run (during s t call j) (List.replicate k (.thread t)) =
      some (during s t call (j+k)) := by
  induction k generalizing j with
  | zero => rfl
  | succ k ih =>
    have hstep : (system process).step (during s t call j) (.thread t) = some (during s t call (j+1)) :=
      during_step process s t call (by omega)
    rw [List.replicate_succ,System.run,hstep,Option.bind_some,ih (by omega)]
    congr 2
    omega

def callActions (t : Nat) (call : Call) : List Action :=
  [.call t call,.thread t] ++ List.replicate call.size (.thread t) ++ [.thread t,.thread t]

def afterCall (process : Nat → Nat) (s : Shm) (t : Nat) (call : Call) (m : Option Nat) : Shm where
  segment := call.segmentAfter s.segment call.size
  mutex := Function.update s.mutex (process t) m
  running := s.running
  returned := s.returned ++ [⟨t,call,call.outAfter s.segment call.size⟩]

theorem call_alone (process : Nat → Nat) {s : Shm} {t : Nat} (ht : s.running t = none)
    (hm : s.mutex (process t) = none) (call : Call) {m : Option Nat}
    (hl : call.leave t (some t) = some m) :
    (system process).run s (callActions t call) = some (afterCall process s t call m) := by
  let locked : Shm := { s with mutex := Function.update s.mutex (process t) (some t) }
  have hstart : (system process).run s [.call t call,.thread t] = some (during locked t call 0) := by
    simp only [System.run,system,step,ht,Option.bind_some,threadStep,Function.update_self,hm,lock_free,
      Option.map_some]
    simp [during,locked,Call.segmentAfter_zero,Call.outAfter_zero]
  have hcopy := during_run process locked t call call.size (Nat.le_of_eq (Nat.zero_add _))
  rw [Nat.zero_add] at hcopy
  have hend : (system process).run (during locked t call call.size) [.thread t,.thread t] =
      some (afterCall process s t call m) := by
    have hidle : Function.update s.running t none = s.running := by
      rw [← ht,Function.update_eq_self]
    simp [System.run,system,step,threadStep,during,locked,hl,afterCall,hidle]
  rw [callActions,System.run_append,System.run_append,hstart,Option.bind_some,hcopy,Option.bind_some,hend]

end MyCpp.SharedMemory
