import MyCpp.ThreadPool.PoolDispatch

/-! The phases of the pool: how far the destructor has come, and what that says about the
stop flag and about sleeping and returned workers. -/
namespace MyCpp.ThreadPool
open TransitionSystem
variable {Task : Type}

/-- What a step does to the workers when it neither starts a thread nor advances the
destructor: a returned worker stays, and one falls asleep before stop and returns after. -/
structure Moved (s t : Pool Task) : Prop where
  dtor : t.dtor = s.dtor
  stop : t.stop = s.stop
  length : t.workers.length = s.workers.length
  stays : ∀ w : Nat, s.workers[w]? = some WorkerPc.returned → t.workers[w]? = some WorkerPc.returned
  slept : ∀ w : Nat, t.workers[w]? = some WorkerPc.asleep →
    s.workers[w]? = some WorkerPc.asleep ∨ s.stop = false
  left : ∀ w : Nat, t.workers[w]? = some WorkerPc.returned →
    s.workers[w]? = some WorkerPc.returned ∨ s.stop = true

theorem set_self {ws : List (WorkerPc Task)} {w : Nat} {old : WorkerPc Task}
    (hw : ws[w]? = some old) (pc : WorkerPc Task) : (ws.set w pc)[w]? = some pc :=
  List.getElem?_set_self (List.getElem?_eq_some_iff.mp hw).1

private theorem set_cases {ws : List (WorkerPc Task)} {w v : Nat} {pc q : WorkerPc Task}
    (h : (ws.set w pc)[v]? = some q) : q = pc ∨ ws[v]? = some q := by
  rw [List.getElem?_set] at h
  split at h
  · split at h
    · exact .inl (Option.some.inj h).symm
    · cases h
  · exact .inr h

private theorem Moved.same {s t : Pool Task} (hw : t.workers = s.workers) (hd : t.dtor = s.dtor)
    (hs : t.stop = s.stop) : Moved s t := by
  refine ⟨hd,hs,by rw [hw],?_,?_,?_⟩
  · exact fun w h => by rwa [hw]
  · exact fun w h => .inl (by rwa [hw] at h)
  · exact fun w h => .inl (by rwa [hw] at h)

private theorem Moved.set {s t : Pool Task} {w : Nat} {old pc : WorkerPc Task}
    (hw : s.workers[w]? = some old) (hold : old ≠ .returned) (ht : t.workers = s.workers.set w pc)
    (hd : t.dtor = s.dtor) (hs : t.stop = s.stop) (hsleep : pc = .asleep → s.stop = false)
    (hret : pc = .returned → s.stop = true) : Moved s t := by
  refine ⟨hd,hs,by rw [ht,List.length_set],?_,?_,?_⟩
  · intro v hv
    have hvw : w ≠ v := by
      rintro rfl
      rw [hw] at hv
      exact hold (Option.some.inj hv)
    rw [ht,List.getElem?_set_ne hvw,hv]
  · intro v hv
    rw [ht] at hv
    rcases set_cases hv with he | hv
    · exact .inr (hsleep he.symm)
    · exact .inl hv
  · intro v hv
    rw [ht] at hv
    rcases set_cases hv with he | hv
    · exact .inr (hret he.symm)
    · exact .inl hv

private theorem Moved.trans {s t u : Pool Task} (h : Moved s t) (h' : Moved t u) : Moved s u := by
  refine ⟨h'.dtor.trans h.dtor,h'.stop.trans h.stop,h'.length.trans h.length,?_,?_,?_⟩
  · exact fun w hw => h'.stays w (h.stays w hw)
  · intro w hw
    rcases h'.slept w hw with hw | hs
    · exact h.slept w hw
    · exact .inr (h.stop ▸ hs)
  · intro w hw
    rcases h'.left w hw with hw | hs
    · exact h.left w hw
    · exact .inr (h.stop ▸ hs)

private theorem Notified.moved {s : Pool Task} {ws : List (WorkerPc Task)} (h : Notified s.workers ws) :
    Moved s { s with workers := ws } := by
  cases h with
  | woke w hw => exact .set hw nofun rfl rfl rfl nofun nofun
  | nobody => exact .same rfl rfl rfl

private theorem WorkerPc.AtLock.ne_returned {pc : WorkerPc Task} (h : pc.AtLock) : pc ≠ .returned := by
  rintro rfl
  exact h

private theorem Effect.moved {numThreads : Nat} {lateCalls : Bool} {s t : Pool Task}
    (h : Effect numThreads lateCalls s t) (hd : t.dtor = s.dtor)
    (hl : t.workers.length = s.workers.length) : Moved s t := by
  cases h with
  | spawn => simp at hl
  | enqueue => exact .same rfl rfl rfl
  | notify ws _ hw => exact hw.moved.trans (.same rfl rfl rfl)
  | sleep w pc hw hp _ hs => exact .set hw hp.ne_returned rfl rfl rfl (fun _ => hs) nofun
  | exit w pc hw hp _ hs => exact .set hw hp.ne_returned rfl rfl rfl nofun (fun _ => hs)
  | take w pc hw hp => exact .set hw hp.ne_returned rfl rfl rfl nofun nofun
  | wake w hw => exact .set hw nofun rfl rfl rfl nofun nofun
  | taskEnqueue w occ self task hw => exact .set hw nofun rfl rfl rfl nofun nofun
  | taskNotify w occ self hw ws hn =>
    exact hn.moved.trans (.set (hn.busy hw) nofun rfl rfl rfl nofun nofun)
  | finish w occ self hw => exact .set hw nofun rfl rfl rfl nofun nofun
  | dtorStart _ hn => simp [hn] at hd
  | dtorStop hn => simp [hn] at hd
  | dtorNotifyAll hn => simp [hn] at hd
  | dtorJoin i hn => simp [hn] at hd
  | dtorReturn i hn => simp [hn] at hd

/-- The stop flag follows the destructor, and no worker returns before it is set. -/
structure Phase (numThreads : Nat) (s : Pool Task) : Prop where
  running : s.dtor = .notStarted ∨ s.dtor = .locking → s.stop = false
  stopped : s.dtor ≠ .notStarted → s.dtor ≠ .locking → s.stop = true
  built : s.dtor ≠ .notStarted → s.workers.length = numThreads
  retired : ∀ w : Nat, s.workers[w]? = some WorkerPc.returned → s.stop = true

private theorem Phase.moved {numThreads : Nat} {s t : Pool Task} (h : Phase numThreads s)
    (hm : Moved s t) : Phase numThreads t := by
  obtain ⟨hrun,hstop,hbuilt,hret⟩ := h
  refine ⟨by rwa [hm.dtor,hm.stop],by rwa [hm.dtor,hm.stop],by rwa [hm.dtor,hm.length],fun w hw => ?_⟩
  rw [hm.stop]
  rcases hm.left w hw with hw | hs
  · exact hret w hw
  · exact hs

private theorem Phase.spawning {numThreads : Nat} {s : Pool Task} (h : Phase numThreads s)
    (hn : s.workers.length < numThreads) : s.dtor = .notStarted := by
  by_contra hd
  have hb := h.built hd
  omega

private theorem Phase.effect {numThreads : Nat} {lateCalls : Bool} {s t : Pool Task}
    (h : Phase numThreads s) (he : Effect numThreads lateCalls s t) : Phase numThreads t := by
  have hm := he.moved
  cases he with
  | spawn hn =>
    refine ⟨h.running,h.stopped,fun hd => absurd (h.spawning hn) hd,fun w hw => ?_⟩
    refine h.retired w ?_
    rcases Nat.lt_or_ge w s.workers.length with hlt | hge
    · exact (List.getElem?_append_left hlt).symm.trans hw
    · have hw : [WorkerPc.locking][w - s.workers.length]? = some WorkerPc.returned :=
        (List.getElem?_append_right hge).symm.trans hw
      cases hk : w - s.workers.length <;> simp [hk] at hw
  | dtorStart hn hd => exact ⟨fun _ => h.running (.inl hd),fun _ hl => absurd rfl hl,fun _ => hn,h.retired⟩
  | dtorStop hd =>
    exact ⟨by simp,fun _ _ => rfl,fun _ => h.built (by simp [hd]),fun _ _ => rfl⟩
  | dtorNotifyAll hd =>
    have hs := h.stopped (by simp [hd]) (by simp [hd])
    refine ⟨by simp,fun _ _ => hs,fun _ => ?_,fun _ _ => hs⟩
    exact (List.length_map ..).trans (h.built (by simp [hd]))
  | dtorJoin i hd
  | dtorReturn i hd =>
    have hs := h.stopped (by simp [hd]) (by simp [hd])
    exact ⟨by simp,fun _ _ => hs,fun _ => h.built (by simp [hd]),fun _ _ => hs⟩
  | notify ws _ hw => exact h.moved (hm rfl hw.moved.length)
  | taskNotify w occ self hw ws hn => exact h.moved (hm rfl ((List.length_set ..).trans hn.moved.length))
  | _ => exact h.moved (hm rfl (by simp [Pool.setWorker,Pool.enqueueTask]))

theorem pool_phase {numThreads : Nat} {lateCalls : Bool} {s : Pool Task}
    (h : (system Task numThreads lateCalls).Reachable s) : Phase numThreads s := by
  refine pool_invariant ?_ (fun _ _ hs he => Phase.effect hs he) h
  constructor <;> simp

/-- The destructor has executed notify_all. -/
def DtorPc.NotifiedAll : DtorPc → Prop
  | .joining _ => True
  | .returned => True
  | _ => False

/-- After notify_all nobody sleeps, and the join loop has passed returned workers only. -/
structure Joining (s : Pool Task) : Prop where
  awake : s.dtor.NotifiedAll → ∀ w : Nat, s.workers[w]? ≠ some WorkerPc.asleep
  joined : ∀ i, s.dtor = .joining i → ∀ w < i, s.workers[w]? = some WorkerPc.returned
  complete : s.dtor = .returned → ∀ (w : Nat) pc, s.workers[w]? = some pc → pc = .returned

private theorem notifyAll_awake (ws : List (WorkerPc Task)) (w : Nat) :
    (notifyAll ws)[w]? ≠ some .asleep := by
  simp only [notifyAll,List.getElem?_map]
  cases ws[w]? with
  | none => simp
  | some pc => cases pc <;> simp [rouse]

private theorem DtorPc.NotifiedAll.stop {numThreads : Nat} {s : Pool Task} (hp : Phase numThreads s)
    (h : s.dtor.NotifiedAll) : s.stop = true := by
  apply hp.stopped <;> intro hd <;> simp [hd,NotifiedAll] at h

/-- Once stop is set a worker never falls asleep; a returned worker never moves. -/
private theorem Joining.moved {numThreads : Nat} {s t : Pool Task} (hp : Phase numThreads s)
    (h : Joining s) (hm : Moved s t) : Joining t := by
  refine ⟨?_,?_,?_⟩
  · rw [hm.dtor]
    intro hd w hw
    rcases hm.slept w hw with hw | hs
    · exact h.awake hd w hw
    · simp [DtorPc.NotifiedAll.stop hp hd] at hs
  · rw [hm.dtor]
    exact fun i hd w hlt => hm.stays w (h.joined i hd w hlt)
  · rw [hm.dtor]
    intro hd w pc hw
    have hlt : w < s.workers.length := hm.length ▸ (List.getElem?_eq_some_iff.mp hw).1
    have hold := h.complete hd w _ (List.getElem?_eq_getElem hlt)
    have hret := hm.stays w ((List.getElem?_eq_getElem hlt).trans (congrArg some hold))
    rw [hw] at hret
    exact Option.some.inj hret

private theorem Joining.effect {numThreads : Nat} {lateCalls : Bool} {s t : Pool Task}
    (hp : Phase numThreads s) (h : Joining s) (he : Effect numThreads lateCalls s t) : Joining t := by
  have hm := he.moved
  cases he with
  | spawn hn =>
    have hd := hp.spawning hn
    exact ⟨by simp [hd,DtorPc.NotifiedAll],by simp [hd],by simp [hd]⟩
  | dtorStart => exact ⟨nofun,nofun,nofun⟩
  | dtorStop => exact ⟨nofun,nofun,nofun⟩
  | dtorNotifyAll hd => exact ⟨fun _ => notifyAll_awake s.workers,by simp,by simp⟩
  | dtorJoin i hd hw =>
    refine ⟨fun _ => h.awake (by simp [hd,DtorPc.NotifiedAll]),?_,by simp⟩
    rintro j ⟨⟩ w hlt
    rcases Nat.lt_succ_iff_lt_or_eq.mp hlt with hlt | rfl
    · exact h.joined i hd w hlt
    · exact hw
  | dtorReturn i hd hw =>
    refine ⟨fun _ => h.awake (by simp [hd,DtorPc.NotifiedAll]),by simp,?_⟩
    intro _ w pc hpc
    change s.workers[w]? = some pc at hpc
    have hlt : w < i := by
      have := (List.getElem?_eq_some_iff.mp hpc).1
      have := List.getElem?_eq_none_iff.mp hw
      omega
    rw [h.joined i hd w hlt] at hpc
    exact (Option.some.inj hpc).symm
  | notify ws _ hw => exact h.moved hp (hm rfl hw.moved.length)
  | taskNotify w occ self hw ws hn =>
    exact h.moved hp (hm rfl ((List.length_set ..).trans hn.moved.length))
  | _ => exact h.moved hp (hm rfl (by simp [Pool.setWorker,Pool.enqueueTask]))

theorem pool_joining {numThreads : Nat} {lateCalls : Bool} {s : Pool Task}
    (h : (system Task numThreads lateCalls).Reachable s) : Joining s := by
  refine System.invariant (S := system Task numThreads lateCalls) ?_ ?_ h
  · rintro s rfl
    constructor <;> simp
  · intro s a t hs hj ht
    exact hj.effect (pool_phase hs) (Pool.step_effect a ht)

end MyCpp.ThreadPool
