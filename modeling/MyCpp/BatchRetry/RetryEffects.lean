import MyCpp.BatchRetry.RetryModel

/-! What one step of a batch worker can do, and that the mutex admits one worker at a time. -/
namespace MyCpp.BatchRetry
open TransitionSystem
variable {outcome : Nat → Bool}

inductive Effect (outcome : Nat → Bool) (s : Retry) : Retry → Prop where
  | lock (w : Nat) (p : Worker) (hw : s.workers[w]? = some p) (hp : p.pc = .top)
      (hm : s.queueMutex = none) :
      Effect outcome s { s.moveTo w p .testing with queueMutex := some w }
  | leave (w : Nat) (p : Worker) (hw : s.workers[w]? = some p) (hp : p.pc = .testing)
      (hq : s.requestQueue = []) :
      Effect outcome s { s.moveTo w p .returned with queueMutex := none }
  | enter (w : Nat) (p : Worker) (hw : s.workers[w]? = some p) (hp : p.pc = .testing)
      (hq : s.requestQueue ≠ []) : Effect outcome s (s.moveTo w p (.batch 0))
  | pop (w : Nat) (p : Worker) (i : Int) (request : String) (rest : List String)
      (hw : s.workers[w]? = some p) (hp : p.pc = .batch i) (hi : i < p.batchSize)
      (hq : s.requestQueue = request :: rest) :
      Effect outcome s { s.moveTo w p (.sending i request) with requestQueue := rest }
  | pause (w : Nat) (p : Worker) (i : Int) (hw : s.workers[w]? = some p) (hp : p.pc = .batch i)
      (hi : p.batchSize ≤ i ∨ s.requestQueue = []) : Effect outcome s (s.moveTo w p .pausing)
  | send (w : Nat) (p : Worker) (i : Int) (request : String) (hw : s.workers[w]? = some p)
      (hp : p.pc = .sending i request) :
      Effect outcome s { s.moveTo w p (.batch (i+1)) with
        requestQueue := if outcome s.sends.length then s.requestQueue
          else s.requestQueue ++ [request]
        sends := s.sends ++ [(request,outcome s.sends.length)] }
  | unlock (w : Nat) (p : Worker) (hw : s.workers[w]? = some p) (hp : p.pc = .pausing) :
      Effect outcome s { s.moveTo w p .top with queueMutex := none }

theorem Retry.step_effect {s t : Retry} (w : Nat) (h : s.processBatch outcome w = some t) :
    Effect outcome s t := by
  obtain ⟨p,hw,h⟩ := Option.bind_eq_some_iff.mp h
  cases hp : p.pc with
  | top =>
    simp only [hp,Option.ite_none_right_eq_some,Option.some.injEq] at h
    obtain ⟨hm,rfl⟩ := h
    exact .lock w p hw hp hm
  | testing =>
    simp only [hp,List.isEmpty_iff] at h
    split at h
    · rename_i hq
      cases h
      exact .leave w p hw hp hq
    · rename_i hq
      cases h
      exact .enter w p hw hp hq
  | batch i =>
    simp only [hp] at h
    split at h
    · rename_i hi
      split at h
      · rename_i request rest hq
        cases h
        exact .pop w p i request rest hw hp (by simp at hi; exact hi.1) hq
      · cases h
    · rename_i hi
      cases h
      refine .pause w p i hw hp ?_
      by_cases hlt : i < p.batchSize
      · exact .inr (by simpa [hlt] using hi)
      · exact .inl (by omega)
  | sending i request =>
    simp only [hp] at h
    cases h
    exact .send w p i request hw hp
  | pausing =>
    simp only [hp] at h
    cases h
    exact .unlock w p hw hp
  | returned =>
    simp only [hp] at h
    cases h

/-- A worker is inside the lock scope exactly when it owns the mutex. -/
def Retry.Exclusive (s : Retry) : Prop :=
  ∀ (w : Nat) p, s.workers[w]? = some p → (p.pc.Locked ↔ s.queueMutex = some w)

private theorem Retry.Exclusive.moveTo {s : Retry} (h : s.Exclusive) {w : Nat} {p : Worker}
    (hw : s.workers[w]? = some p) (pc : Pc) (t : Retry)
    (ht : t.workers = (s.moveTo w p pc).workers) (hself : pc.Locked ↔ t.queueMutex = some w)
    (hother : ∀ v, v ≠ w → (s.queueMutex = some v ↔ t.queueMutex = some v)) : t.Exclusive := by
  intro v q hv
  rw [ht] at hv
  by_cases hvw : v = w
  · subst v
    rw [Retry.moveTo,List.getElem?_set_self (List.getElem?_eq_some_iff.mp hw).1] at hv
    cases hv
    exact hself
  · rw [Retry.moveTo,List.getElem?_set_ne (Ne.symm hvw)] at hv
    exact (h v q hv).trans (hother v hvw)

private theorem Retry.Exclusive.effect {s t : Retry} (h : s.Exclusive) (he : Effect outcome s t) :
    t.Exclusive := by
  have owner {w : Nat} {p : Worker} (hw : s.workers[w]? = some p) (hl : p.pc.Locked) :
      s.queueMutex = some w := (h w p hw).mp hl
  cases he with
  | lock w p hw hp hm =>
    refine h.moveTo hw .testing _ rfl (by simp [Pc.Locked]) fun v hv => ?_
    simp [hm,Ne.symm hv]
  | leave w p hw hp =>
    have ho := owner hw (by simp [hp,Pc.Locked])
    refine h.moveTo hw .returned _ rfl (by simp [Pc.Locked]) fun v hv => ?_
    simp [ho,Ne.symm hv]
  | enter w p hw hp =>
    have ho := owner hw (by simp [hp,Pc.Locked])
    exact h.moveTo hw (.batch 0) _ rfl (by simp [Pc.Locked,Retry.moveTo,ho]) fun v _ => Iff.rfl
  | pop w p i request rest hw hp =>
    have ho := owner hw (by simp [hp,Pc.Locked])
    exact h.moveTo hw (.sending i request) _ rfl (by simp [Pc.Locked,Retry.moveTo,ho])
      fun v _ => Iff.rfl
  | pause w p i hw hp =>
    have ho := owner hw (by simp [hp,Pc.Locked])
    exact h.moveTo hw .pausing _ rfl (by simp [Pc.Locked,Retry.moveTo,ho]) fun v _ => Iff.rfl
  | send w p i request hw hp =>
    have ho := owner hw (by simp [hp,Pc.Locked])
    exact h.moveTo hw (.batch (i+1)) _ rfl (by simp [Pc.Locked,Retry.moveTo,ho]) fun v _ => Iff.rfl
  | unlock w p hw hp =>
    have ho := owner hw (by simp [hp,Pc.Locked])
    refine h.moveTo hw .top _ rfl (by simp [Pc.Locked]) fun v hv => ?_
    simp [ho,Ne.symm hv]

theorem retry_exclusive {initial : List String} {batchSizes : List Int} {s : Retry}
    (h : (system initial batchSizes outcome).Reachable s) : s.Exclusive := by
  refine System.invariant (S := system initial batchSizes outcome) ?_ ?_ h
  · rintro s rfl w p hw
    obtain ⟨b,_,rfl⟩ := List.mem_map.mp (List.mem_of_getElem? hw)
    simp [Pc.Locked]
  · intro s w t _ hs ht
    exact hs.effect (Retry.step_effect w ht)

theorem Retry.Exclusive.inFlight {s : Retry} (h : s.Exclusive) {w : Nat} {p : Worker}
    (hw : s.workers[w]? = some p) (hm : ∀ v, s.queueMutex = some v → v = w) :
    s.inFlight = p.pc.inHand := by
  refine ListUpdate.flatMap_eq_of_others_nil hw fun v q hv hq => ?_
  have hl : ¬ q.pc.Locked := fun hl => hv (hm v ((h v q hq).mp hl))
  cases hpc : q.pc <;> simp_all [Pc.inHand,Pc.Locked]

theorem Retry.Exclusive.inFlight_length_le {s : Retry} (h : s.Exclusive) : s.inFlight.length ≤ 1 := by
  by_cases hm : ∃ w p, s.queueMutex = some w ∧ s.workers[w]? = some p
  · obtain ⟨w,p,ho,hw⟩ := hm
    rw [h.inFlight hw fun v hv => by rw [ho] at hv; exact (Option.some.inj hv).symm]
    cases p.pc <;> simp [Pc.inHand]
  · have hnil : s.inFlight = [] := by
      refine ListUpdate.flatMap_eq_nil fun v q hq => ?_
      have hl : ¬ q.pc.Locked := fun hl => hm ⟨v,q,(h v q hq).mp hl,hq⟩
      cases hpc : q.pc <;> simp_all [Pc.inHand,Pc.Locked]
    simp [hnil]

end MyCpp.BatchRetry
