import MyCpp.SharedMemory.ShmCalls

/-! Who holds the mutex of a process: a thread inside a call, else the last call that
returned decides. A read leaves it locked, since its last statement locks again. -/
namespace MyCpp.SharedMemory
open TransitionSystem ErrorCheckMutex

/-- A call past its first lock. -/
def PastLock : Option Running → Prop
  | none => False
  | some r => r.pc ≠ .lock

def Inside (s : Shm) (t : Nat) : Prop := PastLock (s.running t)

/-- The holder that a call leaves behind. -/
def Returned.holder (r : Returned) : Option Nat :=
  match r.call with
  | .write _ => none
  | .read _ => some r.thread

/-- The holder that the last call returned in a process leaves behind. -/
def lastHolder (process : Nat → Nat) (p : Nat) (returned : List Returned) : Option Nat :=
  ((returned.filter fun r => process r.thread = p).getLast?).bind Returned.holder

/-- The holder of every mutex. -/
structure Held (process : Nat → Nat) (s : Shm) : Prop where
  inside : ∀ t, Inside s t → s.mutex (process t) = some t
  outside : ∀ p, (∀ t, process t = p → ¬ Inside s t) → s.mutex p = lastHolder process p s.returned

/-- The last call that returned is the one that decides, in its process only. -/
theorem lastHolder_append (process : Nat → Nat) (p : Nat) (returned : List Returned) (r : Returned) :
    lastHolder process p (returned ++ [r]) =
      if process r.thread = p then r.holder else lastHolder process p returned := by
  by_cases hp : process r.thread = p
  · simp [lastHolder,List.filter_append,hp]
  · simp [lastHolder,List.filter_append,hp]

/-- The last statement of a call by the holder. -/
theorem leave_own {t : Nat} {call : Call} {m : Option Nat} (dataOut : List UInt8)
    (h : call.leave t (some t) = some m) : m = Returned.holder ⟨t,call,dataOut⟩ := by
  cases call with
  | write dataIn =>
    rw [Call.leave,unlock_own] at h
    cases h
    rfl
  | read len =>
    rw [Call.leave,lock_own] at h
    cases h
    rfl

private theorem inside_update {s s' : Shm} {t : Nat} {x : Option Running}
    (h : s'.running = Function.update s.running t x) (u : Nat) :
    Inside s' u ↔ if u = t then PastLock x else Inside s u := by
  rw [Inside,h]
  by_cases hu : u = t
  · rw [if_pos hu,hu,Function.update_self]
  · rw [if_neg hu,Function.update_of_ne hu,Inside]

/-- A step that takes no thread in or out of a call. -/
theorem Held.keep {process : Nat → Nat} {s s' : Shm} (h : Held process s) (hm : s'.mutex = s.mutex)
    (hr : s'.returned = s.returned) (hi : ∀ u, Inside s' u ↔ Inside s u) : Held process s' := by
  constructor
  · intro u hu
    rw [hm]
    exact h.inside u ((hi u).mp hu)
  · intro p hp
    rw [hm,hr]
    apply h.outside
    intro u hu hin
    exact hp u hu ((hi u).mpr hin)

theorem Held.same {process : Nat → Nat} {s s' : Shm} (h : Held process s) {t : Nat} {x : Option Running}
    (hm : s'.mutex = s.mutex) (hr : s'.returned = s.returned)
    (hs : s'.running = Function.update s.running t x) (hx : PastLock x ↔ Inside s t) :
    Held process s' := by
  apply h.keep hm hr
  intro u
  rw [inside_update hs]
  by_cases hu : u = t
  · rw [if_pos hu,hu,hx]
  · rw [if_neg hu]

theorem Held.alone {process : Nat → Nat} {s : Shm} (h : Held process s) {t u : Nat}
    (ht : s.mutex (process t) = none ∨ s.mutex (process t) = some t) (hu : Inside s u)
    (hp : process u = process t) : u = t := by
  have hm := h.inside u hu
  rw [hp] at hm
  rcases ht with ht | ht
  · rw [ht] at hm
    cases hm
  · rw [ht] at hm
    cases hm
    rfl

/-- A step by which the only thread that may be inside goes in or out. -/
theorem Held.move {process : Nat → Nat} {s s' : Shm} (h : Held process s) {t : Nat} {x : Option Running}
    {m : Option Nat} (ht : s.mutex (process t) = none ∨ s.mutex (process t) = some t)
    (hm : s'.mutex = Function.update s.mutex (process t) m)
    (hs : s'.running = Function.update s.running t x)
    (hr : ∀ p, p ≠ process t → lastHolder process p s'.returned = lastHolder process p s.returned)
    (hin : PastLock x → m = some t) (hout : ¬ PastLock x → m = lastHolder process (process t) s'.returned) :
    Held process s' := by
  constructor
  · intro u hu
    rw [inside_update hs] at hu
    rw [hm]
    by_cases hut : u = t
    · rw [if_pos hut] at hu
      rw [hut,Function.update_self,hin hu]
    · rw [if_neg hut] at hu
      have hne : process u ≠ process t := by
        intro hp
        exact hut (h.alone ht hu hp)
      rw [Function.update_of_ne hne]
      exact h.inside u hu
  · intro p hp
    rw [hm]
    by_cases hpt : p = process t
    · subst hpt
      rw [Function.update_self]
      apply hout
      intro hx
      apply hp t rfl
      rwa [inside_update hs,if_pos rfl]
    · rw [Function.update_of_ne hpt,hr p hpt]
      apply h.outside
      intro u hu hins
      apply hp u hu
      rw [inside_update hs,if_neg]
      · exact hins
      · intro hut
        rw [hut] at hu
        exact hpt hu.symm

private theorem inside_of_pc {s : Shm} {t : Nat} {r : Running} {pc : Pc} (ht : s.running t = some r)
    (hpc : r.pc = pc) (hl : pc ≠ .lock) : Inside s t := by
  rw [Inside,ht,PastLock,hpc]
  exact hl

theorem Held.step {process : Nat → Nat} {s s' : Shm} {a : Action} (h : Held process s)
    (hs : Effect process s a s') : Held process s' := by
  cases hs with
  | call t call ht =>
    refine h.same rfl rfl rfl ?_
    rw [Inside,ht]
    exact ⟨fun hc => absurd rfl hc,False.elim⟩
  | lock t r ht hpc hm =>
    exact h.move hm rfl rfl (fun _ _ => rfl) (fun _ => rfl) (fun hx => absurd nofun hx)
  | copy t r i ht hpc hi =>
    have hin := inside_of_pc ht hpc nofun
    obtain ⟨out,hout⟩ := copyByte_running s t r i
    exact h.same (copyByte_mutex ..) (copyByte_returned ..) hout ⟨fun _ => hin,fun _ => nofun⟩
  | copied t r i ht hpc hi =>
    have hin := inside_of_pc ht hpc nofun
    exact h.same rfl rfl rfl ⟨fun _ => hin,fun _ => nofun⟩
  | leave t r m ht hpc hm =>
    have hown := h.inside t (inside_of_pc ht hpc nofun)
    rw [hown] at hm
    have hholder := leave_own r.dataOut hm
    refine h.move (.inr hown) rfl rfl ?_ (fun hx => hx.elim) ?_
    · intro p hp
      rw [lastHolder_append,if_neg (Ne.symm hp)]
    · intro _
      rw [lastHolder_append,if_pos rfl,hholder]

theorem reachable_held {process : Nat → Nat} {s : Shm} (h : (system process).Reachable s) :
    Held process s := by
  refine System.invariant (P := Held process) ?_ ?_ h
  · intro s hs
    obtain ⟨segment,rfl⟩ := hs
    exact ⟨fun t ht => ht.elim,fun p _ => rfl⟩
  · intro s a t _ hinv ht
    exact hinv.step (step_effect ht)

def oneProcess : Nat → Nat := fun _ => 0

/-- Runs that make calls of one kind only. -/
def Makes (allowed : Call → Prop) (_ : Shm) : Action → Prop
  | .call _ call => allowed call
  | .thread _ => True

/-- Calls that have returned keep nobody waiting: without a call in progress the mutex is
free, and a thread that cannot go on waits for another thread inside a call. -/
def Releases (s : Shm) : Prop :=
  ((∀ t, s.running t = none) → s.mutex 0 = none) ∧
  ∀ t, s.running t ≠ none → threadStep oneProcess s t = none → ∃ u, u ≠ t ∧ Inside s u

structure OnlyMade (allowed : Call → Prop) (s : Shm) : Prop where
  running : ∀ t r, s.running t = some r → allowed r.call
  returned : ∀ r ∈ s.returned, allowed r.call

theorem OnlyMade.step {process : Nat → Nat} {allowed : Call → Prop} {s s' : Shm} {a : Action}
    (h : OnlyMade allowed s) (ha : Makes allowed s a) (hs : Effect process s a s') :
    OnlyMade allowed s' := by
  cases hs with
  | call t call ht =>
    refine ⟨running_update (P := fun _ r => allowed r.call) h.running ?_,h.returned⟩
    intro r hr
    cases hr
    exact ha
  | lock t r ht hpc hm
  | copied t r i ht hpc hi =>
    refine ⟨running_update (P := fun _ r => allowed r.call) h.running ?_,h.returned⟩
    intro r' hr'
    cases hr'
    exact h.running t r ht
  | copy t r i ht hpc hi =>
    obtain ⟨out,hout⟩ := copyByte_running s t r i
    constructor
    · rw [hout]
      apply running_update (P := fun _ r => allowed r.call) h.running
      intro r' hr'
      cases hr'
      exact h.running t r ht
    · rw [copyByte_returned]
      exact h.returned
  | leave t r m ht hpc hm =>
    refine ⟨running_update (P := fun _ r => allowed r.call) h.running nofun,?_⟩
    intro r' hr'
    rcases List.mem_append.mp hr' with hr' | hr'
    · exact h.returned r' hr'
    · obtain rfl := List.mem_singleton.mp hr'
      exact h.running t r ht

theorem reachable_onlyMade {process : Nat → Nat} {allowed : Call → Prop} {s : Shm}
    (h : (system process).ReachableUnder (Makes allowed) s) : OnlyMade allowed s := by
  refine System.invariant_under (P := OnlyMade allowed) ?_ ?_ h
  · intro s hs
    obtain ⟨segment,rfl⟩ := hs
    exact ⟨nofun,nofun⟩
  · intro s a t _ ha hinv ht
    exact hinv.step ha (step_effect ht)

theorem OnlyMade.lastHolder_eq {process : Nat → Nat} {allowed : Call → Prop} {s : Shm}
    (h : OnlyMade allowed s) (hno : ∀ len, ¬ allowed (.read len)) (p : Nat) :
    lastHolder process p s.returned = none := by
  rw [lastHolder,Option.bind_eq_none_iff]
  intro r hr
  have hmem := List.mem_of_mem_filter (List.mem_of_getLast? hr)
  have hallowed := h.returned r hmem
  rw [Returned.holder]
  cases hc : r.call with
  | write dataIn => rfl
  | read len =>
    rw [hc] at hallowed
    exact absurd hallowed (hno len)

theorem releases_of_no_holder {s : Shm} (h : Held oneProcess s)
    (hlast : lastHolder oneProcess 0 s.returned = none) : Releases s := by
  constructor
  · intro hidle
    rw [h.outside 0,hlast]
    intro t _ hin
    rw [Inside,hidle t] at hin
    exact hin
  · intro t ht hblocked
    obtain ⟨r,hr⟩ := Option.ne_none_iff_exists'.mp ht
    rw [threadStep,hr] at hblocked
    cases hpc : r.pc with
    | lock =>
      simp only [hpc,Option.map_eq_none_iff] at hblocked
      obtain ⟨holder,_,hholder⟩ := lock_eq_none.mp hblocked
      by_contra hnone
      have hfree : s.mutex 0 = none := by
        rw [h.outside 0,hlast]
        intro u _ hin
        apply hnone
        refine ⟨u,?_,hin⟩
        intro hut
        rw [hut,Inside,hr] at hin
        exact hin hpc
      have hheld : s.mutex 0 = some holder := hholder
      rw [hfree] at hheld
      cases hheld
    | copy i =>
      simp only [hpc] at hblocked
      split at hblocked <;> cases hblocked
    | leave =>
      have hown := h.inside t (inside_of_pc hr hpc (by decide))
      simp only [hpc,Option.map_eq_none_iff,hown] at hblocked
      cases hc : r.call with
      | write dataIn => simp [hc,Call.leave] at hblocked
      | read len => simp [hc,Call.leave,lock_own] at hblocked

theorem read_locks {allowed : Call → Prop} {len : Nat} (h : allowed (.read len)) :
    ∃ s, (system oneProcess).ReachableUnder (Makes allowed) s ∧ (∀ t, s.running t = none) ∧
      s.mutex 0 = some 0 := by
  let start : Shm := { segment := fun _ => 0 }
  have hinit : (system oneProcess).ReachableUnder (Makes allowed) start := .init ⟨_,rfl⟩
  have hrun := call_alone oneProcess (s := start) (t := 0) rfl rfl (.read len) rfl
  refine ⟨_,hinit.run _ ?_ hrun,fun _ => rfl,?_⟩
  · intro a ha u
    simp only [callActions,List.mem_append,List.mem_cons,List.not_mem_nil,or_false,List.mem_replicate] at ha
    cases a with
    | call t call =>
      simp at ha
      rw [ha.2]
      exact h
    | thread t => trivial
  · rfl

/-- However many threads call, and however their steps interleave: every state of every run
has the mutex back exactly when none of the calls is a read. -/
theorem mutex_released_iff (allowed : Call → Prop) :
    (∀ s, (system oneProcess).ReachableUnder (Makes allowed) s → Releases s) ↔
      ∀ len, ¬ allowed (.read len) := by
  constructor
  · intro h len hread
    obtain ⟨s,hs,hidle,hm⟩ := read_locks hread
    rw [(h s hs).1 hidle] at hm
    cases hm
  · intro hno s hs
    exact releases_of_no_holder (reachable_held hs.reachable)
      ((reachable_onlyMade hs).lastHolder_eq hno 0)

/-- One read by thread 0 has returned, and a write of thread 1 waits for the mutex with no
other call in progress. -/
theorem read_blocks_writer :
    ∃ s, (system oneProcess).Reachable s ∧ s.returned = [⟨0,.read 1,[0]⟩] ∧ (∀ t, s.running t = none) ∧
      s.mutex 0 ≠ none ∧
      ∃ u, step oneProcess s (.call 1 (.write [120])) = some u ∧ threadStep oneProcess u 1 = none := by
  have hrun : (system oneProcess).run { segment := fun _ => 0 } (callActions 0 (.read 1)) =
      some (afterCall oneProcess { segment := fun _ => 0 } 0 (.read 1) (some 0)) :=
    call_alone oneProcess rfl rfl (.read 1) rfl
  refine ⟨_,.run (.init ⟨_,rfl⟩) _ hrun,rfl,fun _ => rfl,nofun,_,rfl,rfl⟩

end MyCpp.SharedMemory
