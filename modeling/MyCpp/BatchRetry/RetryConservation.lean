import Mathlib.Algebra.Order.Group.Multiset
import MyCpp.BatchRetry.RetryPlainLoop

/-! No request is lost or duplicated. Conservation is proved for the plain loop and
carried to the batch workers by their refinement. -/
namespace MyCpp.BatchRetry
open TransitionSystem
variable {outcome : Nat → Bool} {initial : List String}

theorem successes_concat (sends : List (String × Bool)) (request : String) (ok : Bool) :
    successes (sends ++ [(request,ok)]) = successes sends ++ if ok then [request] else [] := by
  cases ok <;> simp [successes]

/-- What a plain state still owes and what it has delivered. -/
def Plain.all (p : Plain) : Multiset String := ↑p.queue + ↑(successes p.sends)

private theorem plainStep_conserves (p : Plain) : (plainStep outcome p).all = p.all := by
  unfold plainStep
  split
  · rfl
  · rename_i request rest hq
    cases outcome p.sends.length with
    | true =>
      simp only [Plain.all,hq,if_true,successes_concat,← Multiset.cons_coe,← Multiset.coe_add,
        Multiset.coe_nil,Multiset.cons_add]
      rw [← add_assoc,Multiset.add_cons,add_zero]
    | false =>
      simp only [Plain.all,hq,Bool.false_eq_true,if_false,successes_concat,← Multiset.cons_coe,
        ← Multiset.coe_add,Multiset.coe_nil,add_zero]
      rw [Multiset.add_cons,add_zero]

theorem plainRun_conserves (outcome : Nat → Bool) (initial : List String) (m : Nat) :
    (plainRun outcome initial m).all = ↑initial := by
  induction m with
  | zero => simp [plainRun,Plain.all,successes]
  | succ m ih => rw [plainRun_succ,plainStep_conserves,ih]

theorem retry_accounts {batchSizes : List Int} {s : Retry}
    (h : (system initial batchSizes outcome).Reachable s) :
    (initial : Multiset String) = ↑s.requestQueue + ↑s.inFlight + ↑s.succeeded := by
  obtain ⟨m,hm⟩ := retry_plain_run h
  have hc := plainRun_conserves outcome initial m
  rw [← hm] at hc
  rw [← hc,Plain.all,Retry.plain,← Multiset.coe_add,add_comm (s.inFlight : Multiset String)]
  rfl

/-- One returned worker is enough to know that the queue is exhausted. -/
theorem retry_exhausted {batchSizes : List Int} {s : Retry}
    (h : (system initial batchSizes outcome).Reachable s) {w : Nat} {p : Worker}
    (hw : s.workers[w]? = some p) (hp : p.pc = .returned) :
    s.requestQueue = [] ∧ (initial : Multiset String) = ↑s.succeeded := by
  obtain ⟨hf,hq⟩ := List.append_eq_nil_iff.mp ((retry_settled h).drained w p hw hp)
  refine ⟨hq,?_⟩
  simpa [hf,hq] using retry_accounts h

/-- When main's worker has been joined, its hundred requests have succeeded once each. -/
theorem main_all_processed {s : Retry} (h : (mainSystem outcome).Reachable s) {p : Worker}
    (hw : s.workers[0]? = some p) (hp : p.pc = .returned) :
    s.requestQueue = [] ∧ (mainQueue : Multiset String) = ↑s.succeeded :=
  retry_exhausted h hw hp

/-- Conservation over every run: the initial requests are those queued, the one being
sent if any, and those whose send succeeded. Once every worker has returned nothing is
queued, so each initial request has succeeded exactly once. -/
theorem retry_conserves_requests (initial : List String) (batchSizes : List Int)
    (outcome : Nat → Bool) (hw : 1 ≤ batchSizes.length) (s : Retry)
    (h : (system initial batchSizes outcome).Reachable s) :
    (initial : Multiset String) = ↑s.requestQueue + ↑s.inFlight + ↑s.succeeded ∧
    s.inFlight.length ≤ 1 ∧
    ((∀ p ∈ s.workers, p.pc = .returned) →
      s.requestQueue = [] ∧ (initial : Multiset String) = ↑s.succeeded) := by
  refine ⟨retry_accounts h,(retry_exclusive h).inFlight_length_le,fun hret => ?_⟩
  have hlen := congrArg List.length (retry_settled h).sizes
  simp only [List.length_map] at hlen
  have hp := List.getElem?_eq_getElem (show 0 < s.workers.length by omega)
  exact retry_exhausted h hp (hret _ (List.mem_of_getElem? hp))

/-- One worker retries a failed request until it succeeds, then returns. -/
def retriedEnd : Retry where
  requestQueue := []
  workers := [⟨2,.returned⟩]
  sends := [("a",false),("b",true),("a",true)]

theorem retry_conserves_requests_returned :
    (system ["a","b"] [2] flakyOutcome).Reachable retriedEnd ∧ retriedEnd.requestQueue = [] ∧
      ((["a","b"] : List String) : Multiset String) = ↑retriedEnd.succeeded := by
  have hr : (system ["a","b"] [2] flakyOutcome).Reachable retriedEnd :=
    .run (.init rfl) (List.replicate 16 0) (by decide)
  exact ⟨hr,(retry_conserves_requests ["a","b"] [2] flakyOutcome (by decide) retriedEnd hr).2.2
    (by decide)⟩

end MyCpp.BatchRetry
