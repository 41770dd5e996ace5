import MyCpp.ThreadPool.PoolPhases

/-! Shutdown and wakeups of the pool. A worker leaves the active set only over an empty
queue, so whoever pushes late is itself a worker that will look at the queue again. -/
namespace MyCpp.ThreadPool
open TransitionSystem FifoDispatch
variable {Task : Type}

/-- A queued task has a worker that has not returned, and that worker is active unless a
notification is still owed. -/
structure Alert (s : Pool Task) : Prop where
  live : s.tasks ≠ [] → ∃ (w : Nat) (pc : WorkerPc Task), s.workers[w]? = some pc ∧ pc ≠ .returned
  alert : s.tasks ≠ [] → 0 < s.callers ∨
    ∃ (w : Nat) (pc : WorkerPc Task), s.workers[w]? = some pc ∧ pc.Active

theorem WorkerPc.Active.ne_returned {pc : WorkerPc Task} (h : pc.Active) : pc ≠ .returned := by
  rintro rfl
  exact h

/-- A worker that has just moved to an active position is the witness for both parts. -/
private theorem Alert.of_active {s : Pool Task} {w : Nat} {pc : WorkerPc Task}
    (hw : s.workers[w]? = some pc) (hp : pc.Active) : Alert s :=
  ⟨fun _ => ⟨w,pc,hw,hp.ne_returned⟩,fun _ => .inr ⟨w,pc,hw,hp⟩⟩

private theorem Alert.of_empty {s : Pool Task} (h : s.tasks = []) : Alert s :=
  ⟨fun hn => absurd h hn,fun hn => absurd h hn⟩

private theorem Alert.notified {s t : Pool Task} (h : Alert s) (hn : Notified s.workers t.workers)
    (ht : t.tasks = s.tasks) : Alert t := by
  generalize hws : t.workers = ws at hn
  cases hn with
  | woke w hw =>
    have hwoken : t.workers[w]? = some .woken := by rw [hws,set_self hw]
    exact .of_active hwoken trivial
  | nobody hn =>
    have live : t.tasks ≠ [] →
        ∃ (w : Nat) (pc : WorkerPc Task), t.workers[w]? = some pc ∧ pc ≠ .returned := by
      rw [ht,hws]
      exact h.live
    refine ⟨live,fun hq => ?_⟩
    obtain ⟨w,pc,hw,hr⟩ := live hq
    refine .inr ⟨w,pc,hw,?_⟩
    rw [hws] at hw
    cases pc with
    | asleep => exact absurd hw (hn w)
    | returned => exact absurd rfl hr
    | _ => trivial

private theorem Alert.mono {s t : Pool Task} (h : Alert s) (ht : t.tasks = s.tasks)
    (hc : t.callers = s.callers)
    (hw : ∀ (w : Nat) pc, s.workers[w]? = some pc → ∃ pc', t.workers[w]? = some pc' ∧
      (pc ≠ .returned → pc' ≠ .returned) ∧ (pc.Active → pc'.Active)) : Alert t := by
  constructor
  · intro hq
    obtain ⟨w,pc,hpc,hr⟩ := h.live (ht ▸ hq)
    obtain ⟨pc',hpc',hr',_⟩ := hw w pc hpc
    exact ⟨w,pc',hpc',hr' hr⟩
  · intro hq
    rcases h.alert (ht ▸ hq) with hpos | ⟨w,pc,hpc,ha⟩
    · exact .inl (hc ▸ hpos)
    · obtain ⟨pc',hpc',_,ha'⟩ := hw w pc hpc
      exact .inr ⟨w,pc',hpc',ha' ha⟩

private theorem Alert.enqueue {numThreads : Nat} (hn : 1 ≤ numThreads) {s : Pool Task}
    (hp : Phase numThreads s) (hb : s.workers.length = numThreads) (hd : s.dtor = .notStarted)
    (task : Task) : Alert { s.enqueueTask task with callers := s.callers + 1 } := by
  refine ⟨fun _ => ?_,fun _ => .inl (Nat.succ_pos _)⟩
  obtain ⟨pc,hpc⟩ : ∃ pc, s.workers[0]? = some pc :=
    ⟨_,List.getElem?_eq_getElem (show 0 < s.workers.length by omega)⟩
  refine ⟨0,pc,hpc,?_⟩
  rintro rfl
  have := hp.retired 0 hpc
  simp [hp.running (.inl hd)] at this

private theorem Alert.effect {numThreads : Nat} (hn : 1 ≤ numThreads) {s t : Pool Task}
    (hp : Phase numThreads s) (h : Alert s) (he : Effect numThreads false s t) : Alert t := by
  cases he with
  | spawn =>
    refine h.mono rfl rfl fun w pc hw => ⟨pc,?_,id,id⟩
    exact (List.getElem?_append_left (List.getElem?_eq_some_iff.mp hw).1).trans hw
  | enqueue task hb hd => exact .enqueue hn hp hb (hd.resolve_left nofun) task
  | notify ws hc hw => exact h.notified hw rfl
  | sleep w pc hw _ ht => exact .of_empty ht
  | exit w pc hw _ ht => exact .of_empty ht
  | take w pc hw => exact .of_active (set_self hw _) trivial
  | wake w hw => exact .of_active (set_self hw _) trivial
  | taskEnqueue w occ self task hw => exact .of_active (set_self hw _) trivial
  | taskNotify w occ self hw ws hw' => exact .of_active (set_self (hw'.busy hw) _) trivial
  | finish w occ self hw => exact .of_active (set_self hw _) trivial
  | dtorNotifyAll =>
    refine h.mono rfl rfl fun w pc hw => ⟨rouse pc,?_,?_,?_⟩
    · simp [notifyAll,hw]
    · cases pc <;> simp [rouse]
    · cases pc <;> simp [rouse,WorkerPc.Active]
  | dtorStart => exact ⟨h.live,h.alert⟩
  | dtorStop => exact ⟨h.live,h.alert⟩
  | dtorJoin => exact ⟨h.live,h.alert⟩
  | dtorReturn => exact ⟨h.live,h.alert⟩

theorem pool_alert {numThreads : Nat} (hn : 1 ≤ numThreads) {s : Pool Task}
    (h : (system Task numThreads false).Reachable s) : Alert s := by
  refine System.invariant (S := system Task numThreads false) ?_ ?_ h
  · rintro s rfl
    exact .of_empty rfl
  · intro s a t hs hj ht
    exact hj.effect hn (pool_phase hs) (Pool.step_effect a ht)

/-- When the destructor has returned, every worker has been joined, the queue is empty
and every task ever enqueued, late ones included, was executed exactly once: the
executions are the pushes with their positions, in some order. -/
theorem pool_shutdown_loses_nothing (numThreads : Nat) (hn : 1 ≤ numThreads) (s : Pool Task)
    (h : (system Task numThreads false).Reachable s) (hd : s.dtor = .returned) :
    (∀ (w : Nat) pc, s.workers[w]? = some pc → pc = .returned) ∧ s.tasks = [] ∧
      (s.executed.map fun e => (e.task,e.occ)).Perm s.pushed.zipIdx := by
  have hj := (pool_joining h).complete hd
  have hq : s.tasks = [] := by
    by_contra hne
    obtain ⟨w,pc,hw,hr⟩ := (pool_alert hn h).live hne
    exact hr (hj w pc hw)
  refine ⟨hj,hq,(pool_dispatch_sound h).drained hq fun w => ?_⟩
  change heldAt s.workers w = none
  cases hw : s.workers[w]? with
  | none => simp [heldAt,hw]
  | some pc => simp [heldAt,hw,hj w pc hw,WorkerPc.held]

/-- One worker; its task 1 enqueues task 2 after stop was set. -/
def lateEnqueue : Pool Nat where
  workers := [.returned]
  stop := true
  dtor := .returned
  pushed := [1,2]
  taken := [(0,1),(0,2)]
  executed := [⟨0,0,1⟩,⟨0,1,2⟩]

theorem pool_shutdown_late_enqueue :
    (system Nat 1 false).Reachable lateEnqueue ∧ lateEnqueue.tasks = [] ∧
      (lateEnqueue.executed.map fun e => (e.task,e.occ)).Perm lateEnqueue.pushed.zipIdx := by
  have hr : (system Nat 1 false).Reachable lateEnqueue :=
    .run (.init rfl) [.spawn,.enqueue 1,.notify none,.lock 0,.dtorStart,.dtorStop,.taskEnqueue 0 2,
      .dtorNotifyAll,.taskNotify 0 none,.finish 0,.lock 0,.finish 0,.lock 0,.dtorJoin,.dtorJoin] rfl
  exact ⟨hr,(pool_shutdown_loses_nothing 1 (Nat.le_refl 1) lateEnqueue hr rfl).2⟩

private theorem effect_notifiedAll {numThreads : Nat} {lateCalls : Bool} {s t : Pool Task}
    (he : Effect numThreads lateCalls s t) (h : s.dtor.NotifiedAll) : t.dtor.NotifiedAll := by
  cases he with
  | dtorStart _ hd => simp [hd,DtorPc.NotifiedAll] at h
  | dtorStop hd => simp [hd,DtorPc.NotifiedAll] at h
  | dtorNotifyAll => trivial
  | dtorJoin => trivial
  | dtorReturn => trivial
  | _ => exact h

/-- No lost wakeup. A queued task with no notification owed leaves some worker neither
asleep nor returned; from notify_all on nobody is asleep, whatever steps follow. -/
theorem pool_no_lost_wakeup (numThreads : Nat) (hn : 1 ≤ numThreads) (s : Pool Task)
    (h : (system Task numThreads false).Reachable s) :
    ¬ (s.tasks ≠ [] ∧
        (s.callers = 0 ∧ ∀ (w : Nat) occ task, s.workers[w]? ≠ some (.notifying occ task)) ∧
        ∀ (w : Nat) pc, s.workers[w]? = some pc → pc = .asleep ∨ pc = .returned) ∧
    (s.dtor.NotifiedAll → ∀ w : Nat, s.workers[w]? ≠ some WorkerPc.asleep) ∧
    (s.dtor.NotifiedAll → ∀ as t, (system Task numThreads false).run s as = some t →
      t.dtor.NotifiedAll ∧ ∀ w : Nat, t.workers[w]? ≠ some WorkerPc.asleep) := by
  refine ⟨?_,(pool_joining h).awake,?_⟩
  · rintro ⟨hq,⟨hc,_⟩,hall⟩
    rcases (pool_alert hn h).alert hq with hpos | ⟨w,pc,hw,ha⟩
    · omega
    · rcases hall w pc hw with rfl | rfl <;> exact ha
  · intro hd as
    induction as generalizing s with
    | nil =>
      rintro t ⟨⟩
      exact ⟨hd,(pool_joining h).awake hd⟩
    | cons a as ih =>
      intro t ht
      obtain ⟨u,hu,ht⟩ := Option.bind_eq_some_iff.mp ht
      exact ih u (h.next a hu) (effect_notifiedAll (Pool.step_effect a hu) hd) t ht

/-- A task is queued while the only worker sleeps: its enqueue_task still owes the wakeup. -/
def owedWakeup : Pool Nat where
  workers := [.asleep]
  tasks := [5]
  callers := 1
  pushed := [5]

theorem pool_no_lost_wakeup_owed :
    (system Nat 1 false).Reachable owedWakeup ∧
    ¬ (owedWakeup.callers = 0 ∧
      ∀ (w : Nat) occ task, owedWakeup.workers[w]? ≠ some (.notifying occ task)) := by
  have hr : (system Nat 1 false).Reachable owedWakeup :=
    .run (.init rfl) [.spawn,.lock 0,.enqueue 5] rfl
  refine ⟨hr,fun hc => (pool_no_lost_wakeup 1 (Nat.le_refl 1) owedWakeup hr).1 ⟨by decide,hc,?_⟩⟩
  intro w pc hw
  cases w with
  | zero => exact .inl (Option.some.inj hw).symm
  | succ w => cases hw

end MyCpp.ThreadPool
