import MyCpp.SharedMemory.ShmContents

/-! A writer process and a reader process. Each locks the mutex of its own static object,
so nothing keeps the two memcpys apart. -/
namespace MyCpp.SharedMemory
open TransitionSystem ErrorCheckMutex

/-- Thread 0, a process of its own, writes the given strings in turn; thread 1, another
process, makes its first read. -/
def WriterAndReader (writes : List (List UInt8)) (len : Nat) (s : Shm) : Action → Prop
  | .call 0 call => ∃ w, writes[s.returned.countP fun r => r.thread = 0]? = some w ∧ call = .write w
  | .call 1 call => call = .read len ∧ ∀ r ∈ s.returned, r.thread ≠ 1
  | .call _ _ => False
  | .thread _ => True

/-- Bytes of a memcpy have still to be copied. -/
def Copying (s : Shm) (t : Nat) : Prop := ∃ r i, s.running t = some r ∧ r.pc = .copy i ∧ i < r.call.size

/-- In every run the memcpys of a write and of the read exclude each other, and a read
returns what the segment held at one moment without a write in progress. -/
def NoTornReads (writes : List (List UInt8)) (len : Nat) : Prop :=
  ∀ s before, (system id).TraceUnder (WriterAndReader writes len) (s :: before) →
    ¬ (Copying s 0 ∧ Copying s 1) ∧
    ∀ r ∈ s.returned, r.thread = 1 → ∃ moment ∈ s :: before, moment.running 0 = none ∧
      r.dataOut = (List.range len).map moment.segment

/-- How far a read of an unchanging segment is. -/
def Reading (segment : Nat → UInt8) (len : Nat) (r : Running) : Prop :=
  r.call = .read len ∧ match r.pc with
    | .lock => r.dataOut = []
    | .copy i => i ≤ len ∧ r.dataOut = (List.range i).map segment
    | .leave => r.dataOut = (List.range len).map segment

/-- The calls of a run in which no write changes a byte that the read copies. -/
def Harmless (segment : Nat → UInt8) (len : Nat) : Nat → Running → Prop
  | 0, r => ∃ w, r.call = .write w ∧ (len = 0 ∨ strlen w = 0)
  | 1, r => Reading segment len r
  | _, _ => False

structure Still (segment : Nat → UInt8) (len : Nat) (s : Shm) : Prop where
  unchanged : len = 0 ∨ s.segment = segment
  running : ∀ t r, s.running t = some r → Harmless segment len t r
  returned : ∀ r ∈ s.returned, r.thread = 1 → r.dataOut = (List.range len).map segment

theorem Still.not_overlapping {segment : Nat → UInt8} {len : Nat} {s : Shm} (h : Still segment len s) :
    ¬ (Copying s 0 ∧ Copying s 1) := by
  intro hc
  obtain ⟨⟨r,i,hr,_,hi⟩,⟨r',j,hr',_,hj⟩⟩ := hc
  obtain ⟨w,hw,hsmall⟩ := h.running 0 r hr
  have hread := h.running 1 r' hr'
  rw [hw] at hi
  rw [hread.1] at hj
  rcases hsmall with hlen | hstr
  · subst hlen
    exact Nat.not_lt_zero _ hj
  · rw [Call.size,hstr] at hi
    exact Nat.not_lt_zero _ hi

theorem Harmless.of_lock {segment : Nat → UInt8} {len t : Nat} {r : Running}
    (h : Harmless segment len t r) (hpc : r.pc = .lock) :
    Harmless segment len t { r with pc := .copy 0 } := by
  match t with
  | 0 => exact h
  | 1 =>
    obtain ⟨hc,hr⟩ := h
    rw [hpc] at hr
    exact ⟨hc,Nat.zero_le len,hr⟩
  | t + 2 => exact h

theorem Harmless.of_copied {segment : Nat → UInt8} {len t i : Nat} {r : Running}
    (h : Harmless segment len t r) (hpc : r.pc = .copy i) (hi : r.call.size ≤ i) :
    Harmless segment len t { r with pc := .leave } := by
  match t with
  | 0 => exact h
  | 1 =>
    obtain ⟨hc,hr⟩ := h
    rw [hpc] at hr
    rw [hc] at hi
    have hlast : i = len := Nat.le_antisymm hr.1 hi
    refine ⟨hc,?_⟩
    rw [← hlast]
    exact hr.2
  | t + 2 => exact h

/-- A byte copied in a harmless call: the reader's byte is the one of the segment. -/
theorem Still.copy {segment : Nat → UInt8} {len : Nat} {s : Shm} (h : Still segment len s) {t i : Nat}
    {r : Running} (ht : s.running t = some r) (hpc : r.pc = .copy i) (hi : i < r.call.size) :
    Still segment len (copyByte s t r i) := by
  have hr := h.running t r ht
  match t with
  | 0 =>
    obtain ⟨w,hw,hsmall⟩ := hr
    have hlen : len = 0 := by
      rcases hsmall with hlen | hstr
      · exact hlen
      · rw [hw,Call.size,hstr] at hi
        exact absurd hi (Nat.not_lt_zero i)
    rw [copyByte,hw]
    refine ⟨.inl hlen,running_update h.running ?_,h.returned⟩
    intro r' hr'
    cases hr'
    exact ⟨w,rfl,.inl hlen⟩
  | 1 =>
    obtain ⟨hc,hsofar⟩ := hr
    rw [hpc] at hsofar
    rw [hc] at hi
    have hseg : s.segment = segment := by
      rcases h.unchanged with hlen | hseg
      · subst hlen
        exact absurd hi (Nat.not_lt_zero i)
      · exact hseg
    rw [copyByte,hc]
    refine ⟨h.unchanged,running_update h.running ?_,h.returned⟩
    intro r' hr'
    cases hr'
    refine ⟨rfl,hi,?_⟩
    show r.dataOut ++ [s.segment i] = (List.range (i+1)).map segment
    rw [hsofar.2,hseg,List.range_succ,List.map_append,List.map_singleton]
  | t + 2 => exact hr.elim

theorem Still.step {writes : List (List UInt8)} {segment : Nat → UInt8} {len : Nat} {s s' : Shm} {a : Action}
    (hsmall : ∀ w ∈ writes, len = 0 ∨ strlen w = 0) (h : Still segment len s)
    (ha : WriterAndReader writes len s a) (hs : Effect id s a s') : Still segment len s' := by
  cases hs with
  | call t call ht =>
    refine ⟨h.unchanged,running_update h.running ?_,h.returned⟩
    intro r hr
    cases hr
    match t with
    | 0 =>
      obtain ⟨w,hw,hcall⟩ := ha
      exact ⟨w,hcall,hsmall w (List.mem_of_getElem? hw)⟩
    | 1 => exact ⟨ha.1,rfl⟩
    | t + 2 => exact ha
  | lock t r ht hpc hm =>
    refine ⟨h.unchanged,running_update h.running ?_,h.returned⟩
    intro r' hr'
    cases hr'
    exact (h.running t r ht).of_lock hpc
  | copy t r i ht hpc hi => exact h.copy ht hpc hi
  | copied t r i ht hpc hi =>
    refine ⟨h.unchanged,running_update h.running ?_,h.returned⟩
    intro r' hr'
    cases hr'
    exact (h.running t r ht).of_copied hpc hi
  | leave t r m ht hpc hm =>
    refine ⟨h.unchanged,running_update h.running nofun,?_⟩
    intro r' hr' h1
    rcases List.mem_append.mp hr' with hr' | hr'
    · exact h.returned r' hr' h1
    · obtain rfl := List.mem_singleton.mp hr'
      obtain rfl : t = 1 := h1
      have hread := (h.running 1 r ht).2
      rw [hpc] at hread
      exact hread

/-- The first moment of the run is one at which no write is in progress. -/
theorem trace_still {writes : List (List UInt8)} {len : Nat} (hsmall : ∀ w ∈ writes, len = 0 ∨ strlen w = 0)
    {s : Shm} {before : List Shm} (h : (system id).TraceUnder (WriterAndReader writes len) (s :: before)) :
    ∃ moment ∈ s :: before, moment.running 0 = none ∧ Still moment.segment len s := by
  generalize htrace : s :: before = trace at h
  induction h generalizing s before with
  | init h =>
    cases htrace
    obtain ⟨segment,rfl⟩ := h
    exact ⟨_,List.mem_cons_self,rfl,.inr rfl,nofun,nofun⟩
  | step a hs ha h ih =>
    cases htrace
    obtain ⟨moment,hmem,hidle,hstill⟩ := ih rfl
    exact ⟨moment,List.mem_cons_of_mem _ hmem,hidle,hstill.step hsmall ha (step_effect h)⟩

/-- Both processes pass their locks and stand before the first byte. -/
theorem overlap_reachable {w : List UInt8} (writes : List (List UInt8)) {len : Nat} (hw : 0 < strlen w)
    (hlen : 0 < len) :
    ∃ s before, (system id).TraceUnder (WriterAndReader (w :: writes) len) (s :: before) ∧
      Copying s 0 ∧ Copying s 1 := by
  have h0 : (system id).TraceUnder (WriterAndReader (w :: writes) len) [{ segment := fun _ => 0 }] :=
    .init ⟨_,rfl⟩
  have h1 := h0.step (Action.call 0 (.write w)) ⟨w,rfl,rfl⟩ rfl
  have h2 := h1.step (Action.thread 0) trivial rfl
  have h3 := h2.step (Action.call 1 (.read len)) ⟨rfl,nofun⟩ rfl
  have h4 := h3.step (Action.thread 1) trivial rfl
  exact ⟨_,_,h4,⟨_,0,rfl,rfl,hw⟩,⟨_,0,rfl,rfl,hlen⟩⟩

/-- Two processes with strings of one length `width`: reads are never torn exactly when there
is nothing to copy on one of the two sides. -/
theorem no_torn_reads_iff (writes : List (List UInt8)) (width len : Nat) (hnul : ∀ w ∈ writes, 0 ∉ w)
    (hwidth : ∀ w ∈ writes, w.length = width) :
    NoTornReads writes len ↔ writes = [] ∨ width = 0 ∨ len = 0 := by
  have hstr : ∀ w ∈ writes, strlen w = width := by
    intro w hw
    rw [strlen_eq (hnul w hw),hwidth w hw]
  constructor
  · intro h
    cases writes with
    | nil => exact .inl rfl
    | cons w writes =>
      by_contra hne
      have hw : 0 < strlen w := by
        rw [hstr w List.mem_cons_self]
        omega
      have hlen : 0 < len := by omega
      obtain ⟨s,before,hs,hover⟩ := overlap_reachable writes hw hlen
      exact (h s before hs).1 hover
  · intro hcond s before hs
    have hsmall : ∀ w ∈ writes, len = 0 ∨ strlen w = 0 := by
      intro w hw
      rcases hcond with hnil | hzero | hlen
      · rw [hnil] at hw
        cases hw
      · exact .inr ((hstr w hw).trans hzero)
      · exact .inl hlen
    obtain ⟨moment,hmem,hidle,hstill⟩ := trace_still hsmall hs
    refine ⟨hstill.not_overlapping,?_⟩
    intro r hr h1
    exact ⟨moment,hmem,hidle,hstill.returned r hr h1⟩

/-- Empty strings. -/
theorem no_torn_reads_iff_empty : NoTornReads [[],[]] 2 :=
  (no_torn_reads_iff [[],[]] 0 2 (by simp) (by simp)).mpr (.inr (.inl rfl))

/-- One write of "ab" to a zero segment: the read that starts after the first byte returns
"a" and a zero byte, which the segment never held while no write was in progress. -/
theorem torn_read :
    ∃ s before, (system id).TraceUnder (WriterAndReader [[97,98]] 2) (s :: before) ∧
      (∃ moment ∈ s :: before, Copying moment 0 ∧ Copying moment 1) ∧
      s.returned = [⟨1,.read 2,[97,0]⟩] ∧
      ∀ moment ∈ s :: before, moment.running 0 = none → (List.range 2).map moment.segment ≠ [97,0] := by
  have h0 : (system id).TraceUnder (WriterAndReader [[97,98]] 2) [{ segment := fun _ => 0 }] :=
    .init ⟨_,rfl⟩
  have h1 := h0.step (Action.call 0 (.write [97,98])) ⟨_,rfl,rfl⟩ rfl
  have h2 := h1.step (Action.thread 0) trivial rfl
  have h3 := h2.step (Action.thread 0) trivial rfl
  have h4 := h3.step (Action.call 1 (.read 2)) ⟨rfl,nofun⟩ rfl
  have h5 := h4.step (Action.thread 1) trivial rfl
  have h6 := h5.step (Action.thread 1) trivial rfl
  have h7 := h6.step (Action.thread 1) trivial rfl
  have h8 := h7.step (Action.thread 1) trivial rfl
  have h9 := h8.step (Action.thread 1) trivial rfl
  refine ⟨_,_,h9,⟨_,.tail _ (.tail _ (.tail _ (.tail _ (.head _)))),⟨_,1,rfl,rfl,?_⟩,⟨_,0,rfl,rfl,?_⟩⟩,rfl,?_⟩
  · decide
  · decide
  · decide

end MyCpp.SharedMemory
