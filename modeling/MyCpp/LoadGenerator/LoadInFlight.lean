import MyCpp.LoadGenerator.LoadFutures

/-! How many requests can run at once. No statement looks at THREAD_POOL_SIZE, so slow
requests pile up from batch to batch until all of them are running. -/
namespace MyCpp.LoadGenerator
open TransitionSystem

def inFlight (s : Client) : Nat := s.started.countP fun r => !s.complete r

theorem inFlight_le_total {total perSecond : Nat} {s : Client} (h : (system total perSecond).Reachable s) :
    inFlight s ≤ total := by
  have hcount := reachable_counted h
  calc inFlight s ≤ s.started.length := List.countP_le_length
    _ = s.requestCounter + s.pc.lag := by rw [hcount.started,List.length_range]
    _ ≤ total := hcount.counter.le

/-- The first `k` requests are started and none is complete. -/
def busy (k : Nat) (pc : Pc) : Client where
  pc := pc
  requestCounter := k
  futures := (List.range k).map some
  started := List.range k

theorem busy_inFlight (k : Nat) (pc : Pc) : inFlight (busy k pc) = k := by
  simp [inFlight,busy]

section
variable {total perSecond : Nat}

theorem busy_push {k i : Nat} (h : (system total perSecond).Reachable (busy k (.push i))) :
    (system total perSecond).Reachable (busy (k+1) (.forTest (i+1))) := by
  have hpush : (system total perSecond).step (busy k (.push i)) .client =
      some { busy (k+1) (.increment i) with requestCounter := k } := by
    simp [system,sendRequestsWithThreadPool,busy,List.range_succ]
  exact (h.next .client hpush).next .client rfl

theorem busy_scan {k it : Nat} (h : (system total perSecond).Reachable (busy k (.findReady 0)))
    (hit : it ≤ k) : (system total perSecond).Reachable (busy k (.findReady it)) := by
  induction it with
  | zero => exact h
  | succ it ih =>
    have hstep : (system total perSecond).step (busy k (.findReady it)) .client =
        some (busy k (.findReady (it+1))) := by
      have hslot : ((List.range k).map some)[it]? = some (some it) := by
        rw [List.getElem?_map,List.getElem?_range hit]
        rfl
      simp only [system,sendRequestsWithThreadPool,busy,removeIf,hslot]
      rfl
    exact (ih (by omega)).next .client hstep

theorem busy_cleanup {k : Nat} (h : (system total perSecond).Reachable (busy k .sleep)) :
    (system total perSecond).Reachable (busy k .whileTest) := by
  have hstart : (system total perSecond).Reachable (busy k (.findReady 0)) := h.next .client rfl
  have hend := busy_scan hstart (Nat.le_refl k)
  have herase : (system total perSecond).step (busy k (.findReady k)) .client =
      some (busy k (.erase k)) := by
    simp [system,sendRequestsWithThreadPool,removeIf,busy]
  have htake : (system total perSecond).step (busy k (.erase k)) .client = some (busy k .whileTest) := by
    have hall : ((List.range k).map some).take k = (List.range k).map some := by
      apply List.take_of_length_le
      simp
    simp [system,sendRequestsWithThreadPool,busy,hall]
  exact (hend.next .client herase).next .client htake

/-- From one request to the next, through a cleanup when the batch is full. -/
theorem busy_next (hp : 1 ≤ perSecond) {k i : Nat} (hk : k < total)
    (h : (system total perSecond).Reachable (busy k (.forTest i))) :
    ∃ j, (system total perSecond).Reachable (busy (k+1) (.forTest j)) := by
  have hbatch : ∀ j < perSecond, (system total perSecond).step (busy k (.forTest j)) .client =
      some (busy k (.push j)) := by
    intro j hj
    simp [system,sendRequestsWithThreadPool,busy,hj,hk]
  by_cases hi : i < perSecond
  · exact ⟨i+1,busy_push (h.next .client (hbatch i hi))⟩
  · have hsleep : (system total perSecond).step (busy k (.forTest i)) .client = some (busy k .sleep) := by
      simp [system,sendRequestsWithThreadPool,busy,hi]
    have henter : (system total perSecond).step (busy k .whileTest) .client = some (busy k (.forTest 0)) := by
      simp [system,sendRequestsWithThreadPool,busy,hk]
    have hfirst := (busy_cleanup (h.next .client hsleep)).next .client henter
    exact ⟨1,busy_push (hfirst.next .client (hbatch 0 hp))⟩

theorem busy_reachable (hp : 1 ≤ perSecond) {k : Nat} (hk : k < total) :
    ∃ i, (system total perSecond).Reachable (busy k (.forTest i)) := by
  induction k with
  | zero =>
    have hinit : (system total perSecond).Reachable (busy 0 .whileTest) := .init rfl
    have henter : (system total perSecond).step (busy 0 .whileTest) .client = some (busy 0 (.forTest 0)) := by
      simp [system,sendRequestsWithThreadPool,busy,hk]
    exact ⟨0,hinit.next .client henter⟩
  | succ k ih =>
    obtain ⟨i,hi⟩ := ih (by omega)
    exact busy_next hp (by omega) hi

end

theorem inFlight_reachable {total perSecond : Nat} (hp : 1 ≤ perSecond) {k : Nat} (hk : k < total) :
    ∃ s, (system total perSecond).Reachable s ∧ inFlight s = k + 1 := by
  obtain ⟨i,hi⟩ := busy_reachable hp hk
  obtain ⟨j,hj⟩ := busy_next hp hk hi
  exact ⟨_,hj,busy_inFlight _ _⟩

/-- The number of requests in flight stays within a pool size, whatever the completions do,
exactly when there are no more requests than that in all. -/
theorem pool_size_respected_iff (poolSize total perSecond : Nat) (hp : 1 ≤ perSecond) :
    (∀ s, (system total perSecond).Reachable s → inFlight s ≤ poolSize) ↔ total ≤ poolSize := by
  constructor
  · intro h
    by_contra hlt
    obtain ⟨s,hs,hbusy⟩ := inFlight_reachable hp (Nat.lt_of_not_le hlt)
    have hle := h s hs
    omega
  · intro hle s hs
    exact Nat.le_trans (inFlight_le_total hs) hle

theorem pool_size_respected_iff_thirty_two : 1 ≤ REQUESTS_PER_SECOND ∧
    ∀ s, (system 32 REQUESTS_PER_SECOND).Reachable s → inFlight s ≤ THREAD_POOL_SIZE := by
  have hp : 1 ≤ REQUESTS_PER_SECOND := by decide
  exact ⟨hp,(pool_size_respected_iff THREAD_POOL_SIZE 32 REQUESTS_PER_SECOND hp).mpr (Nat.le_refl 32)⟩

/-- With the constants of the program, 33 requests run while none has completed. -/
theorem pool_size_exceeded :
    ∃ s, (system TOTAL_REQUESTS REQUESTS_PER_SECOND).Reachable s ∧ inFlight s = 33 ∧
      THREAD_POOL_SIZE < inFlight s := by
  have hp : 1 ≤ REQUESTS_PER_SECOND := by decide
  have hk : 32 < TOTAL_REQUESTS := by decide
  obtain ⟨s,hs,hbusy⟩ := inFlight_reachable hp hk
  refine ⟨s,hs,hbusy,?_⟩
  rw [hbusy]
  decide

end MyCpp.LoadGenerator
