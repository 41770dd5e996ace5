import Mathlib.Data.List.FinRange
import MyCpp.BatchRetry.RetryPlainLoop
import MyCpp.Library.RoundRobin

/-! Retries are round robin. A request may be queued several times, so its occurrences are
followed by their positions in the initial queue. -/
namespace MyCpp.BatchRetry
open TransitionSystem RoundRobin
variable {outcome : Nat → Bool} {initial : List String}

theorem plainStep_serve (p : Rounds String) :
    plainStep outcome ⟨p.queue,p.tried⟩ = ⟨(p.serve outcome).queue,(p.serve outcome).tried⟩ := by
  obtain ⟨queue,tried⟩ := p
  cases queue with
  | nil => rfl
  | cons request rest =>
    simp only [plainStep,Rounds.serve]
    split
    · rw [List.append_nil]
    · rfl

/-- The plain loop makes the rounds of its queue. -/
theorem plainRun_rounds (m : Nat) : plainRun outcome initial m =
    ⟨(rounds outcome initial m).queue,(rounds outcome initial m).tried⟩ := by
  induction m with
  | zero => rfl
  | succ m ih => rw [plainRun_succ,ih,plainStep_serve,rounds]

/-- The rounds made by the occurrences: position `i` stands for the request queued there. -/
def occurrences (initial : List String) (outcome : Nat → Bool) (m : Nat) : Rounds (Fin initial.length) :=
  rounds outcome (List.finRange initial.length) m

theorem occurrences_map (m : Nat) :
    (occurrences initial outcome m).map initial.get = rounds outcome initial m := by
  rw [occurrences,rounds_map,List.map_get_finRange]

theorem plain_at_test {batchSizes : List Int} {s : Retry} (h : (system initial batchSizes outcome).Reachable s)
    {w : Nat} {p : Worker} (hw : s.workers[w]? = some p) (htest : p.pc = .testing ∨ ∃ i, p.pc = .batch i) :
    s.plain = { queue := s.requestQueue, sends := s.sends } := by
  have hex := retry_exclusive h
  obtain ⟨hl,hnil⟩ : p.pc.Locked ∧ p.pc.inHand = [] := by
    rcases htest with hp | ⟨i,hp⟩
    all_goals
      rw [hp]
      exact ⟨trivial,rfl⟩
  have howner := (hex w p hw).mp hl
  rw [Retry.plain,hex.inFlight hw (by simp [howner]),hnil]
  rfl

/-- At every loop test of every worker the queue and the sends are those of the occurrences;
the queue is a part tried k times and a part tried k+1 times, no success took more, and
between two attempts on an occurrence every other pending one is tried. -/
theorem retries_round_robin (initial : List String) (batchSizes : List Int) (outcome : Nat → Bool)
    (s : Retry) (h : (system initial batchSizes outcome).Reachable s) (w : Nat) (p : Worker)
    (hw : s.workers[w]? = some p) (htest : p.pc = .testing ∨ ∃ i, p.pc = .batch i) :
    ∃ m o, o = occurrences initial outcome m ∧
      s.requestQueue = o.queue.map initial.get ∧ s.sends = o.tried.map (Prod.map initial.get id) ∧
      (∃ k front back, o.queue = front ++ back ∧ (∀ i ∈ front, o.tries i = k) ∧
        (∀ i ∈ back, o.tries i = k + 1) ∧ ∀ i, (i,true) ∈ o.tried → o.tries i ≤ k + 1) ∧
      (∀ i ∈ o.queue, ∀ j ∈ o.queue, o.tries i ≤ o.tries j + 1) ∧
      ∀ before i ok mid ok' after, o.tried = before ++ (i,ok) :: mid ++ (i,ok') :: after →
        ∀ j ∈ o.queue, j ≠ i → j ∈ mid.map Prod.fst := by
  have hnodup := List.nodup_finRange initial.length
  obtain ⟨m,hm⟩ := retry_plain_run h
  rw [plain_at_test h hw htest,plainRun_rounds,← occurrences_map,Plain.mk.injEq] at hm
  obtain ⟨k,front,back,hl⟩ := rounds_level outcome hnodup m
  refine ⟨m,_,rfl,hm.1,hm.2,⟨k,front,back,hl.queue,hl.front,hl.back,hl.done⟩,?_,?_⟩
  · exact fun i hi j hj => hl.close hi hj
  · exact (rounds_spaced outcome hnodup m).between

/-- Two workers on a request queued twice, the first send failing; the second worker tests
its loop. -/
theorem retries_round_robin_twice :
    ∃ s, (system ["a","a"] [1,3] flakyOutcome).run
        { requestQueue := ["a","a"], workers := [{ batchSize := 1 },{ batchSize := 3 }] }
        [0,0,0,0,0,0,1,1,1,1] = some s ∧ s.sends = [("a",false),("a",true)] ∧
      ∃ m o, o = occurrences ["a","a"] flakyOutcome m ∧ s.requestQueue = o.queue.map (["a","a"].get) ∧
        ∃ k front back, o.queue = front ++ back ∧ (∀ i ∈ front, o.tries i = k) ∧
          ∀ i ∈ back, o.tries i = k + 1 := by
  have hrun : (system ["a","a"] [1,3] flakyOutcome).run
      { requestQueue := ["a","a"], workers := [{ batchSize := 1 },{ batchSize := 3 }] }
      [0,0,0,0,0,0,1,1,1,1] =
      some ⟨["a"],some 1,[⟨1,.top⟩,⟨3,.batch 1⟩],[("a",false),("a",true)]⟩ := by decide
  obtain ⟨m,o,ho,hqueue,_,⟨k,front,back,hlevel,hfront,hback,_⟩,_⟩ :=
    retries_round_robin ["a","a"] [1,3] flakyOutcome _ (.run (.init rfl) _ hrun) 1 ⟨3,.batch 1⟩ rfl
      (.inr ⟨1,rfl⟩)
  exact ⟨_,hrun,rfl,m,o,ho,hqueue,k,front,back,hlevel,hfront,hback⟩

end MyCpp.BatchRetry
