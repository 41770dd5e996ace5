import MyCpp.Library.FilterCount
import MyCpp.LoadGenerator.LoadFutures

/-! The function returns in every run that goes on as long as it can: between two increments
of the counter there is at most one cleanup, and a request completes once. -/
namespace MyCpp.LoadGenerator
open TransitionSystem RemoveScan FilterCount

theorem futures_length {total perSecond : Nat} {s : Client} (h : (system total perSecond).Reachable s) :
    s.futures.length ≤ s.started.length := by
  refine System.invariant (P := fun s : Client => s.futures.length ≤ s.started.length) ?_ ?_ h
  · intro s hs
    obtain rfl : s = {} := hs
    exact Nat.le_refl 0
  · intro s a t _ hinv ht
    cases step_effect total perSecond ht with
    | push i hpc =>
      show (s.futures ++ [some s.requestCounter]).length ≤ (s.started ++ [s.requestCounter]).length
      rw [List.length_append,List.length_append]
      exact Nat.succ_le_succ hinv
    | move result it r hpc hr hc =>
      show ((s.futures.set result (some r)).set it none).length ≤ s.started.length
      rw [List.length_set,List.length_set]
      exact hinv
    | erase result hpc =>
      show (s.futures.take result).length ≤ s.started.length
      exact Nat.le_trans (List.length_take_le' _ _) hinv
    | _ => exact hinv

theorem futures_le_total {total perSecond : Nat} {s : Client} (h : (system total perSecond).Reachable s) :
    s.futures.length ≤ total := by
  have hlen := futures_length h
  have hcount := reachable_counted h
  rw [hcount.started,List.length_range] at hlen
  exact Nat.le_trans hlen hcount.counter.le

section
variable (total perSecond : Nat)

/-- How far a statement is from the next increment or from the return. -/
def rank (s : Client) : Nat :=
  match s.pc with
  | .returned => 0
  | .waitFor it => total + 1 - it
  | .increment _ => 1
  | .push _ => 2
  | .forTest i => if i < perSecond ∧ s.requestCounter < total then 3 else 2 * total + 11
  | .whileTest => total + 5
  | .erase _ => total + 6
  | .remove _ it => total + 7 + (total + 1 - it)
  | .findReady it => total + 8 + (total + 1 - it)
  | .sleep => 2 * total + 10

def uncompleted (s : Client) : Nat := (List.range total).countP fun r => !s.complete r

def measure (s : Client) : Nat :=
  (total - s.requestCounter) * (2 * total + 20) + rank total perSecond s + uncompleted total s

theorem rank_lt (s : Client) : rank total perSecond s < 2 * total + 20 := by
  rw [rank]
  split
  all_goals first | omega | (split <;> omega)

variable {total perSecond}

theorem measure_of_rank {s t : Client} (hcounter : t.requestCounter = s.requestCounter)
    (hc : t.complete = s.complete) (h : rank total perSecond t < rank total perSecond s) :
    measure total perSecond t < measure total perSecond s := by
  rw [measure,measure,uncompleted,uncompleted,hcounter,hc]
  omega

theorem measure_complete {s : Client} (hcount : Counted total s) {r : Nat} (hr : r ∈ s.started)
    (hc : s.complete r = false) :
    measure total perSecond { s with complete := Function.update s.complete r true } <
      measure total perSecond s := by
  have hlt : r < total := by
    rw [hcount.started,List.mem_range] at hr
    exact Nat.lt_of_lt_of_le hr hcount.counter.le
  have hless : (List.range total).countP (fun q => !Function.update s.complete r true q) <
      (List.range total).countP fun q => !s.complete q := by
    refine countP_lt ?_ (List.mem_range.mpr hlt) ?_ ?_
    · intro q hq
      by_cases hqr : q = r
      · rw [hqr,hc]
        rfl
      · rwa [Function.update_of_ne hqr] at hq
    · rw [Function.update_self]
      rfl
    · rw [hc]
      rfl
  exact Nat.add_lt_add_left hless _

theorem measure_increment {s : Client} (i : Nat) (hc : s.requestCounter < total) :
    measure total perSecond { s with requestCounter := s.requestCounter + 1, pc := .forTest (i+1) } <
      measure total perSecond s := by
  have hrank := rank_lt total perSecond { s with requestCounter := s.requestCounter + 1, pc := .forTest (i+1) }
  have hlevel : (total - s.requestCounter) * (2 * total + 20) =
      (total - (s.requestCounter + 1)) * (2 * total + 20) + (2 * total + 20) := by
    rw [← Nat.succ_mul]
    congr 1
    omega
  show (total - (s.requestCounter + 1)) * (2 * total + 20) + _ + uncompleted total s <
    (total - s.requestCounter) * (2 * total + 20) + _ + uncompleted total s
  rw [hlevel]
  omega

private theorem lt_of_getElem? {s : Client} {it : Nat} {x : Option Nat} (hlen : s.futures.length ≤ total)
    (h : s.futures[it]? = some x) : it < total := by
  obtain ⟨hit,_⟩ := List.getElem?_eq_some_iff.mp h
  exact Nat.lt_of_lt_of_le hit hlen

theorem measure_step (hp : 1 ≤ perSecond) {s t : Client} (h : (system total perSecond).Reachable s)
    (hs : Effect total perSecond s t) : measure total perSecond t < measure total perSecond s := by
  have hcount := reachable_counted h
  have hlen := futures_le_total h
  cases hs with
  | complete r hr hc => exact measure_complete hcount hr hc
  | increment i hpc =>
    have hcounter := hcount.counter
    rw [hpc] at hcounter
    exact measure_increment i hcounter
  | enter hpc hc =>
    refine measure_of_rank rfl rfl ?_
    simp only [rank,hpc]
    rw [if_pos ⟨hp,hc⟩]
    omega
  | again i hpc hi hc =>
    refine measure_of_rank rfl rfl ?_
    simp only [rank,hpc]
    rw [if_pos ⟨hi,hc⟩]
    omega
  | batch i hpc hi =>
    refine measure_of_rank rfl rfl ?_
    simp only [rank,hpc]
    rw [if_neg (by omega)]
    omega
  | leave hpc hc
  | push i hpc
  | sleep hpc
  | foundNone it hpc hr
  | scanned result it hpc hr
  | erase result hpc =>
    refine measure_of_rank rfl rfl ?_
    simp only [rank,hpc]
    omega
  | pass it r hpc hr hc
  | found it r hpc hr hc
  | skip result it r hpc hr hc
  | move result it r hpc hr hc
  | waited it r hpc hr hc =>
    have hit := lt_of_getElem? hlen hr
    refine measure_of_rank rfl rfl ?_
    simp only [rank,hpc]
    omega
  | returns it hpc hr =>
    obtain ⟨kept,gap,unseen,hd⟩ := reachable_divided h
    have hplace := hd.place
    rw [hpc] at hplace
    obtain ⟨rfl,rfl,_⟩ := hplace
    rw [hd.futures,scan_length] at hlen
    refine measure_of_rank rfl rfl ?_
    simp only [rank,hpc]
    omega

/-- The slot at the place of a scan: behind the last one, or a future not moved from. -/
theorem Divided.slot {s : Client} {kept unseen : List Nat} {gap : List (Option Nat)} {it : Nat}
    (h : Divided s kept gap unseen) (hit : kept.length + gap.length = it) :
    s.futures[it]? = none ∨ ∃ r, s.futures[it]? = some (some r) ∧ r ∈ s.started := by
  cases unseen with
  | nil =>
    refine .inl (List.getElem?_eq_none ?_)
    rw [h.futures,scan_length,← hit]
    exact Nat.le_refl _
  | cons r rest =>
    refine .inr ⟨r,?_,?_⟩
    · rw [h.futures,← hit,scan_next]
    · exact h.order.subset (List.mem_append_right _ List.mem_cons_self)

/-- Short of the return the function has a step, or it waits for a request that can
complete. -/
theorem step_enabled {s : Client} (h : (system total perSecond).Reachable s) (hret : s.pc ≠ .returned) :
    ∃ a t, (system total perSecond).step s a = some t := by
  obtain ⟨kept,gap,unseen,hd⟩ := reachable_divided h
  have hplace := hd.place
  have hclient : (sendRequestsWithThreadPool total perSecond s).isSome = true →
      ∃ a t, (system total perSecond).step s a = some t := by
    intro hsome
    obtain ⟨t,ht⟩ := Option.isSome_iff_exists.mp hsome
    exact ⟨.client,t,ht⟩
  cases hpc : s.pc with
  | returned => exact absurd hpc hret
  | findReady it =>
    rw [hpc] at hplace
    obtain ⟨rfl,hit⟩ := hplace
    apply hclient
    rcases hd.slot hit with hslot | ⟨r,hslot,_⟩
    · simp only [sendRequestsWithThreadPool,hpc,removeIf,hslot,Option.isSome_some]
    · simp only [sendRequestsWithThreadPool,hpc,removeIf,hslot]
      split <;> rfl
  | remove result it =>
    rw [hpc] at hplace
    obtain ⟨_,_,hit⟩ := hplace
    apply hclient
    rcases hd.slot hit with hslot | ⟨r,hslot,_⟩
    · simp only [sendRequestsWithThreadPool,hpc,removeIf,hslot,Option.isSome_some]
    · simp only [sendRequestsWithThreadPool,hpc,removeIf,hslot]
      split <;> rfl
  | waitFor it =>
    rw [hpc] at hplace
    obtain ⟨rfl,hit,_⟩ := hplace
    rcases hd.slot hit with hslot | ⟨r,hslot,hr⟩
    · apply hclient
      simp only [sendRequestsWithThreadPool,hpc,hslot,Option.isSome_some]
    · cases hc : s.complete r with
      | true =>
        apply hclient
        simp only [sendRequestsWithThreadPool,hpc,hslot,hc,if_true,Option.isSome_some]
      | false => exact ⟨.complete r,_,if_pos ⟨hr,hc⟩⟩
  | whileTest =>
    apply hclient
    simp only [sendRequestsWithThreadPool,hpc]
    split <;> rfl
  | forTest i =>
    apply hclient
    simp only [sendRequestsWithThreadPool,hpc]
    split
    · split <;> rfl
    · rfl
  | _ =>
    apply hclient
    simp only [sendRequestsWithThreadPool,hpc,Option.isSome_some]

theorem eventually_returns (hp : 1 ≤ perSecond) (e : (system total perSecond).Execution) (n : Nat) :
    ∃ m, n ≤ m ∧ (e.state m).pc = .returned := by
  apply e.eventually (fun s => s.pc = .returned) (measure total perSecond)
  intro s hs hret
  refine ⟨step_enabled hs hret,?_⟩
  intro a t ht
  exact .inr (measure_step hp hs (step_effect total perSecond ht))

end

/-- The load generator, for any numbers of requests, any batch size and any schedule of
completions: the requests are started in order and once each; at every point the futures
that are not ready are those of the running requests, in start order, and a future leaves
the vector only after a poll found it ready; once the function has returned all requests
are complete, and it does return. -/
theorem load_generator_sound (total perSecond : Nat) (hp : 1 ≤ perSecond) :
    (∀ s, (system total perSecond).Reachable s →
      (s.started = List.range s.started.length ∧ s.started.length ≤ total) ∧
      ((s.futures.filterMap id).filter (fun r => !s.complete r) = s.started.filter (fun r => !s.complete r) ∧
        (s.futures.filterMap id).Nodup) ∧
      (∀ r ∈ s.started, some r ∈ s.futures ∨ r ∈ s.polled ∧ s.complete r = true) ∧
      (s.pc = .returned → s.started = List.range total ∧ ∀ r < total, s.complete r = true)) ∧
    ∀ (e : (system total perSecond).Execution) (n : Nat), ∃ m, n ≤ m ∧ (e.state m).pc = .returned := by
  refine ⟨?_,eventually_returns hp⟩
  intro s h
  have hcount := reachable_counted h
  obtain ⟨kept,gap,unseen,hd⟩ := reachable_divided h
  refine ⟨?_,⟨hd.running hcount,?_⟩,?_,hd.returned hcount⟩
  · have hstarted := hcount.started
    constructor
    · rw [hstarted,List.length_range]
    · rw [hstarted,List.length_range]
      exact hcount.counter.le
  · rw [hd.futures,scan_elements]
    exact hd.nodup
  · intro r hr
    rcases hd.known r hr with hin | hpolled
    · refine .inl ?_
      rw [hd.futures,scan]
      rcases List.mem_append.mp hin with hin | hin
      · exact List.mem_append_left _ (List.mem_append_left _ (List.mem_map_of_mem hin))
      · exact List.mem_append_right _ (List.mem_map_of_mem hin)
    · exact .inr ⟨hpolled,hcount.polled r hpolled⟩

/-- Two requests in one batch; the second is complete before the cleanup, the first while
the function waits for it. -/
def twoRequests : List Action :=
  List.replicate 9 .client ++ [.complete 1] ++ List.replicate 5 .client ++ [.complete 0] ++
    List.replicate 2 .client

theorem load_generator_sound_two :
    ∃ s, (system 2 2).run {} twoRequests = some s ∧ s.pc = .returned ∧
      s.started = List.range 2 ∧ ∀ r < 2, s.complete r = true := by
  have hrun : ((system 2 2).run {} twoRequests).isSome = true := by decide
  obtain ⟨s,hs⟩ := Option.isSome_iff_exists.mp hrun
  have hpc : ((system 2 2).run {} twoRequests).map Client.pc = some .returned := by decide
  rw [hs] at hpc
  have hret : s.pc = .returned := Option.some.inj hpc
  have hreach : (system 2 2).Reachable s := .run (.init rfl) _ hs
  exact ⟨s,hs,hret,((load_generator_sound 2 2 (by decide)).1 s hreach).2.2.2 hret⟩

end MyCpp.LoadGenerator
