import Mathlib.Logic.Function.Basic
import MyCpp.Library.TransitionSystem
import MyCpp.Library.ErrorCheckMutex

/-! SimpleSHM.h: threads that call SimpleSHM::write and SimpleSHM::read on one segment. The
object of getInstance is a static of each process, and the mutex is a member of it. -/
namespace MyCpp.SharedMemory
open TransitionSystem ErrorCheckMutex

/-- The size passed to shmget. -/
def segmentSize : Nat := 1024

/-- strlen of the bytes at a pointer; the bytes past the list are zero. -/
def strlen (bytes : List UInt8) : Nat := (bytes.takeWhile (· ≠ 0)).length

def cString (buffer : List UInt8) : List UInt8 := buffer.takeWhile (· ≠ 0)

inductive Call where
  | write (dataIn : List UInt8)
  | read (len : Nat)
  deriving DecidableEq

def Call.size : Call → Nat
  | .write dataIn => strlen dataIn
  | .read len => len

/-- The next statement of a call: the first pthread_mutex_lock, byte `i` of the memcpy, or
the last statement. -/
inductive Pc where
  | lock
  | copy (i : Nat)
  | leave
  deriving DecidableEq

/-- A call in progress, with the bytes it has stored through dataOut. -/
structure Running where
  call : Call
  pc : Pc := .lock
  dataOut : List UInt8 := []
  deriving DecidableEq

structure Returned where
  thread : Nat
  call : Call
  dataOut : List UInt8
  deriving DecidableEq

/-- The bytes from the start of the attached segment, the mutex of each process, the call
of each thread, and the calls that have returned. -/
structure Shm where
  segment : Nat → UInt8
  mutex : Nat → Option Nat := fun _ => none
  running : Nat → Option Running := fun _ => none
  returned : List Returned := []

/-- One byte of the memcpy of a call. -/
def copyByte (s : Shm) (t : Nat) (r : Running) (i : Nat) : Shm :=
  match r.call with
  | .write dataIn => { s with
      segment := Function.update s.segment i (dataIn[i]?.getD 0)
      running := Function.update s.running t (some { r with pc := .copy (i+1) }) }
  | .read _ => { s with
      running := Function.update s.running t
        (some { r with pc := .copy (i+1), dataOut := r.dataOut ++ [s.segment i] }) }

@[simp] theorem copyByte_mutex (s : Shm) (t : Nat) (r : Running) (i : Nat) :
    (copyByte s t r i).mutex = s.mutex := by
  rw [copyByte]
  split <;> rfl

@[simp] theorem copyByte_returned (s : Shm) (t : Nat) (r : Running) (i : Nat) :
    (copyByte s t r i).returned = s.returned := by
  rw [copyByte]
  split <;> rfl

theorem copyByte_running (s : Shm) (t : Nat) (r : Running) (i : Nat) :
    ∃ out, (copyByte s t r i).running =
      Function.update s.running t (some { r with pc := .copy (i+1), dataOut := out }) := by
  rw [copyByte]
  split
  · exact ⟨r.dataOut,rfl⟩
  · exact ⟨r.dataOut ++ [s.segment i],rfl⟩

/-- The last statement: write unlocks the mutex, read locks it once more. -/
def Call.leave (t : Nat) : Call → Option Nat → Option (Option Nat)
  | .write _, m => some (unlock t m)
  | .read _, m => lock t m

def threadStep (process : Nat → Nat) (s : Shm) (t : Nat) : Option Shm :=
  match s.running t with
  | none => none
  | some r => match r.pc with
    | .lock => (lock t (s.mutex (process t))).map fun m => { s with
        mutex := Function.update s.mutex (process t) m
        running := Function.update s.running t (some { r with pc := .copy 0 }) }
    | .copy i =>
      if i < r.call.size then some (copyByte s t r i)
      else some { s with running := Function.update s.running t (some { r with pc := .leave }) }
    | .leave => (r.call.leave t (s.mutex (process t))).map fun m => { s with
        mutex := Function.update s.mutex (process t) m
        running := Function.update s.running t none
        returned := s.returned ++ [⟨t,r.call,r.dataOut⟩] }

inductive Action where
  | call (t : Nat) (call : Call)
  | thread (t : Nat)
  deriving DecidableEq

def step (process : Nat → Nat) (s : Shm) : Action → Option Shm
  | .call t call => match s.running t with
    | none => some { s with running := Function.update s.running t (some { call := call }) }
    | some _ => none
  | .thread t => threadStep process s t

/-- Threads of any number of processes, thread `t` in process `process t`, attached to one
segment. -/
def system (process : Nat → Nat) : System Shm Action where
  init s := ∃ segment, s = { segment := segment }
  step := step process

inductive Effect (process : Nat → Nat) (s : Shm) : Action → Shm → Prop where
  | call (t : Nat) (call : Call) (ht : s.running t = none) :
      Effect process s (.call t call)
        { s with running := Function.update s.running t (some { call := call }) }
  | lock (t : Nat) (r : Running) (ht : s.running t = some r) (hpc : r.pc = .lock)
      (hm : s.mutex (process t) = none ∨ s.mutex (process t) = some t) :
      Effect process s (.thread t) { s with
        mutex := Function.update s.mutex (process t) (some t)
        running := Function.update s.running t (some { r with pc := .copy 0 }) }
  | copy (t : Nat) (r : Running) (i : Nat) (ht : s.running t = some r) (hpc : r.pc = .copy i)
      (hi : i < r.call.size) : Effect process s (.thread t) (copyByte s t r i)
  | copied (t : Nat) (r : Running) (i : Nat) (ht : s.running t = some r) (hpc : r.pc = .copy i)
      (hi : r.call.size ≤ i) :
      Effect process s (.thread t)
        { s with running := Function.update s.running t (some { r with pc := .leave }) }
  | leave (t : Nat) (r : Running) (m : Option Nat) (ht : s.running t = some r) (hpc : r.pc = .leave)
      (hm : r.call.leave t (s.mutex (process t)) = some m) :
      Effect process s (.thread t) { s with
        mutex := Function.update s.mutex (process t) m
        running := Function.update s.running t none
        returned := s.returned ++ [⟨t,r.call,r.dataOut⟩] }

theorem running_update {P : Nat → Running → Prop} {running : Nat → Option Running}
    (h : ∀ t r, running t = some r → P t r) {t : Nat} {x : Option Running}
    (hx : ∀ r, x = some r → P t r) : ∀ u r, Function.update running t x u = some r → P u r := by
  intro u r hu
  by_cases hut : u = t
  · subst hut
    rw [Function.update_self] at hu
    exact hx r hu
  · rw [Function.update_of_ne hut] at hu
    exact h u r hu

theorem step_effect {process : Nat → Nat} {s s' : Shm} {a : Action} (h : step process s a = some s') :
    Effect process s a s' := by
  cases a with
  | call t call =>
    rw [step] at h
    cases ht : s.running t with
    | some r => simp [ht] at h
    | none =>
      simp only [ht,Option.some.injEq] at h
      exact h ▸ .call t call ht
  | thread t =>
    rw [step,threadStep] at h
    cases ht : s.running t with
    | none => simp [ht] at h
    | some r =>
      simp only [ht] at h
      cases hpc : r.pc with
      | lock =>
        simp only [hpc,Option.map_eq_some_iff] at h
        obtain ⟨m,hm,rfl⟩ := h
        obtain ⟨rfl,hfree⟩ := lock_eq_some hm
        exact .lock t r ht hpc hfree
      | copy i =>
        simp only [hpc] at h
        split at h
        · rename_i hi
          cases h
          exact .copy t r i ht hpc hi
        · rename_i hi
          cases h
          exact .copied t r i ht hpc (Nat.le_of_not_lt hi)
      | leave =>
        simp only [hpc,Option.map_eq_some_iff] at h
        obtain ⟨m,hm,rfl⟩ := h
        exact .leave t r m ht hpc hm

end MyCpp.SharedMemory
