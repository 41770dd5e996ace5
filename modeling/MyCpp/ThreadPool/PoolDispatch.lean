import MyCpp.ThreadPool.PoolEffects

/-! The pool refines first-in first-out dispatch: pushes, pops and completions are the
dispatch steps, and every wait, wakeup, notification and destructor step is invisible. -/
namespace MyCpp.ThreadPool
open TransitionSystem FifoDispatch
variable {Task : Type}

def heldAt (ws : List (WorkerPc Task)) (w : Nat) : Option (Nat × Task) := ws[w]?.bind WorkerPc.held

/-- Worker `w` has taken occurrence `occ` of `task` and has not finished it. -/
def Pool.Holds (s : Pool Task) (w occ : Nat) (task : Task) : Prop :=
  heldAt s.workers w = some (occ,task)

def Pool.dispatch (s : Pool Task) : Dispatch Nat Task where
  pushed := s.pushed
  queue := s.tasks
  taken := s.taken
  held := heldAt s.workers
  executed := s.executed

theorem heldAt_set {ws : List (WorkerPc Task)} {w : Nat} {old : WorkerPc Task}
    (hw : ws[w]? = some old) (pc : WorkerPc Task) :
    heldAt (ws.set w pc) = Function.update (heldAt ws) w pc.held := by
  have hlt := (List.getElem?_eq_some_iff.mp hw).1
  funext v
  by_cases hv : v = w
  · subst v
    simp [heldAt,List.getElem?_set_self hlt]
  · simp [heldAt,Function.update_of_ne hv,List.getElem?_set_ne (Ne.symm hv)]

theorem heldAt_set_same {ws : List (WorkerPc Task)} {w : Nat} {old : WorkerPc Task}
    (hw : ws[w]? = some old) (pc : WorkerPc Task) (hp : pc.held = old.held) :
    heldAt (ws.set w pc) = heldAt ws := by
  rw [heldAt_set hw,hp,show old.held = heldAt ws w by simp [heldAt,hw],Function.update_eq_self]

theorem heldAt_spawn (ws : List (WorkerPc Task)) : heldAt (ws ++ [.locking]) = heldAt ws := by
  funext v
  rcases Nat.lt_trichotomy v ws.length with hv | rfl | hv
  · simp [heldAt,List.getElem?_append_left hv]
  · simp [heldAt,WorkerPc.held]
  · simp [heldAt,List.getElem?_eq_none (show (ws ++ [WorkerPc.locking]).length ≤ v by simp; omega),
      List.getElem?_eq_none (Nat.le_of_lt hv)]

theorem heldAt_notifyAll (ws : List (WorkerPc Task)) : heldAt (notifyAll ws) = heldAt ws := by
  funext v
  simp only [heldAt,notifyAll,List.getElem?_map]
  cases ws[v]? with
  | none => rfl
  | some pc => cases pc <;> rfl

theorem Notified.heldAt {ws ws' : List (WorkerPc Task)} (h : Notified ws ws') :
    heldAt ws' = heldAt ws := by
  cases h with
  | woke w hw => exact heldAt_set_same hw _ rfl
  | nobody => rfl

theorem WorkerPc.AtLock.held {pc : WorkerPc Task} (h : pc.AtLock) : pc.held = none := by
  cases pc <;> first | rfl | exact h.elim

theorem Notified.busy {ws ws' : List (WorkerPc Task)} (h : Notified ws ws') {w occ : Nat}
    {task : Task} (hw : ws[w]? = some (.notifying occ task)) :
    ws'[w]? = some (.notifying occ task) := by
  cases h with
  | woke v hv =>
    have hvw : v ≠ w := by
      rintro rfl
      rw [hw] at hv
      cases hv
    rw [List.getElem?_set_ne hvw,hw]
  | nobody => exact hw

private theorem effect_dispatch {numThreads : Nat} {lateCalls : Bool} {s t : Pool Task}
    (h : Effect numThreads lateCalls s t) :
    t.dispatch = s.dispatch ∨ ∃ b, s.dispatch.step b = some t.dispatch := by
  cases h with
  | spawn => exact .inl (by simp [Pool.dispatch,heldAt_spawn])
  | enqueue task => exact .inr ⟨.push task,rfl⟩
  | notify ws _ hn => exact .inl (by simp [Pool.dispatch,hn.heldAt])
  | sleep w pc hw hp => exact .inl (by
      simp [Pool.dispatch,Pool.setWorker,heldAt_set_same hw .asleep hp.held.symm])
  | exit w pc hw hp => exact .inl (by
      simp [Pool.dispatch,Pool.setWorker,heldAt_set_same hw .returned hp.held.symm])
  | take w pc hw hp task rest ht =>
    have hh : heldAt s.workers w = none := by simp [heldAt,hw,hp.held]
    exact .inr ⟨.take w,by
      simp [Dispatch.step,Pool.dispatch,Pool.setWorker,ht,hh,heldAt_set hw,WorkerPc.held]⟩
  | wake w hw => exact .inl (by
      simp [Pool.dispatch,Pool.setWorker,heldAt_set_same hw .woken rfl])
  | taskEnqueue w occ self task hw =>
    exact .inr ⟨.push task,by
      simp [Dispatch.step,Pool.dispatch,Pool.enqueueTask,Pool.setWorker,
        heldAt_set_same hw (.notifying occ self) rfl]⟩
  | taskNotify w occ self hw ws hn => exact .inl (by
      simp [Pool.dispatch,heldAt_set_same (hn.busy hw) (.running occ self) rfl,hn.heldAt])
  | finish w occ self hw =>
    have hh : heldAt s.workers w = some (occ,self) := by simp [heldAt,hw,WorkerPc.held]
    exact .inr ⟨.finish w,by
      simp [Dispatch.step,Pool.dispatch,Pool.setWorker,hh,heldAt_set hw,WorkerPc.held]⟩
  | dtorStart => exact .inl rfl
  | dtorStop => exact .inl rfl
  | dtorNotifyAll => exact .inl (by simp [Pool.dispatch,heldAt_notifyAll])
  | dtorJoin => exact .inl rfl
  | dtorReturn => exact .inl rfl

/-- Every run of the pool is a run of the dispatch specification. -/
theorem pool_refines_dispatch (numThreads : Nat) (lateCalls : Bool) :
    (system Task numThreads lateCalls).Refines Dispatch.system Pool.dispatch where
  init := by
    rintro s rfl
    exact ⟨rfl,rfl,rfl,rfl,fun _ => rfl⟩
  step _ a _ _ h := effect_dispatch (Pool.step_effect a h)

theorem pool_dispatch_sound {numThreads : Nat} {lateCalls : Bool} {s : Pool Task}
    (h : (system Task numThreads lateCalls).Reachable s) : s.dispatch.Sound :=
  Dispatch.sound ((pool_refines_dispatch numThreads lateCalls).reachable h)

/-- The tasks pushed so far are the tasks taken so far followed by the queue. A taken
occurrence is held by one worker, the one that took it, or was executed once by it, and
nothing else is ever held or executed. -/
theorem pool_fifo_single_owner (numThreads : Nat) (lateCalls : Bool) (s : Pool Task)
    (h : (system Task numThreads lateCalls).Reachable s) :
    s.pushed = s.taken.map Prod.snd ++ s.tasks ∧
    (∀ occ w task, s.taken[occ]? = some (w,task) →
      (s.Holds w occ task ∧ (∀ v u, s.Holds v occ u → v = w) ∧ ∀ e ∈ s.executed, e.occ ≠ occ) ∨
      ((∀ v u, ¬ s.Holds v occ u) ∧
        s.executed.filter (fun e => e.occ = occ) = [⟨w,occ,task⟩])) ∧
    (∀ w occ task, s.Holds w occ task → s.taken[occ]? = some (w,task)) ∧
    ∀ e ∈ s.executed, s.taken[e.occ]? = some (e.worker,e.task) := by
  have hs := pool_dispatch_sound h
  refine ⟨hs.fifo,?_,fun w occ task hw => (hs.held w occ task hw).1,hs.done⟩
  intro occ w task ht
  exact hs.owner ht

/-- Two workers, one task enqueued twice: one occurrence done, the other held. -/
def twoWorkers : Pool Nat where
  workers := [.running 1 7,.locking]
  callers := 1
  pushed := [7,7]
  taken := [(1,7),(0,7)]
  executed := [⟨1,0,7⟩]

theorem pool_fifo_single_owner_two_workers :
    (system Nat 2 true).Reachable twoWorkers ∧ twoWorkers.Holds 0 1 7 ∧
      twoWorkers.pushed = twoWorkers.taken.map Prod.snd ++ twoWorkers.tasks := by
  have hr : (system Nat 2 true).Reachable twoWorkers :=
    .run (.init rfl) [.spawn,.spawn,.enqueue 7,.lock 1,.notify none,.enqueue 7,.finish 1,.lock 0] rfl
  exact ⟨hr,rfl,(pool_fifo_single_owner 2 true twoWorkers hr).1⟩

end MyCpp.ThreadPool
