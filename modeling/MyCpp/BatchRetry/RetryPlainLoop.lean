import Mathlib.Data.Nat.Init
import Mathlib.Logic.Function.Iterate
import MyCpp.BatchRetry.RetryEffects

/-! Batching and worker count are invisible: any interleaving of batch workers refines
the plain loop that sends the front of the queue and re-queues it on failure. -/
namespace MyCpp.BatchRetry
open TransitionSystem

/-- The plain loop's state: its queue and the sends it has made. -/
structure Plain where
  queue : List String
  sends : List (String × Bool) := []
  deriving DecidableEq

/-- One iteration of: while the queue is non-empty, pop the front, send it once, push it
to the back on failure. -/
def plainStep (outcome : Nat → Bool) (p : Plain) : Plain :=
  match p.queue with
  | [] => p
  | request :: rest =>
    let ok := outcome p.sends.length
    { queue := if ok then rest else rest ++ [request]
      sends := p.sends ++ [(request,ok)] }

def plainRun (outcome : Nat → Bool) (initial : List String) (m : Nat) : Plain :=
  (plainStep outcome)^[m] { queue := initial }

def plainSystem (outcome : Nat → Bool) (initial : List String) : System Plain Unit where
  init p := p = { queue := initial }
  step p _ := if p.queue = [] then none else some (plainStep outcome p)

variable {outcome : Nat → Bool} {initial : List String}

theorem plainStep_nil {p : Plain} (h : p.queue = []) : plainStep outcome p = p := by
  simp [plainStep,h]

theorem plainStep_extends (p : Plain) : p.sends <+: (plainStep outcome p).sends := by
  unfold plainStep
  split
  · exact List.prefix_rfl
  · exact List.prefix_append _ _

theorem plainRun_succ (m : Nat) :
    plainRun outcome initial (m+1) = plainStep outcome (plainRun outcome initial m) :=
  Function.iterate_succ_apply' _ _ _

theorem plainRun_mono {m k : Nat} (h : m ≤ k) :
    (plainRun outcome initial m).sends <+: (plainRun outcome initial k).sends := by
  induction k, h using Nat.le_induction with
  | base => exact List.prefix_rfl
  | succ k _ ih =>
    rw [plainRun_succ]
    exact ih.trans (plainStep_extends _)

theorem plainRun_finished {k : Nat} (h : (plainRun outcome initial k).queue = []) (m : Nat) :
    (plainRun outcome initial m).sends <+: (plainRun outcome initial k).sends := by
  rcases Nat.le_total m k with hm | hm
  · exact plainRun_mono hm
  · have hsame : plainRun outcome initial m = plainRun outcome initial k := by
      induction m, hm using Nat.le_induction with
      | base => rfl
      | succ m _ ih => rw [plainRun_succ,ih,plainStep_nil h]
    exact hsame ▸ List.prefix_rfl

theorem plain_reachable_run {p : Plain} (h : (plainSystem outcome initial).Reachable p) :
    ∃ m, p = plainRun outcome initial m := by
  refine System.invariant (S := plainSystem outcome initial)
    (P := fun p => ∃ m, p = plainRun outcome initial m) ?_ ?_ h
  · rintro p rfl
    exact ⟨0,rfl⟩
  · rintro p _ q _ ⟨m,rfl⟩ hq
    have hq : q = plainStep outcome (plainRun outcome initial m) := by
      simp only [plainSystem,Option.ite_none_left_eq_some,Option.some.injEq] at hq
      exact hq.2.symm
    exact ⟨m+1,by rw [plainRun_succ,hq]⟩

/-- A popped request whose send is pending still counts as the front of the plain queue. -/
def Retry.plain (s : Retry) : Plain where
  queue := s.inFlight ++ s.requestQueue
  sends := s.sends

theorem Retry.Exclusive.plain {s : Retry} (h : s.Exclusive) {w : Nat} {p : Worker}
    (hw : s.workers[w]? = some p) (hm : ∀ v, s.queueMutex = some v → v = w) :
    s.plain = { queue := p.pc.inHand ++ s.requestQueue, sends := s.sends } := by
  rw [Retry.plain,h.inFlight hw hm]

theorem effect_plain {s t : Retry} (hs : s.Exclusive) (ht : t.Exclusive)
    (he : Effect outcome s t) :
    t.plain = s.plain ∨ (s.plain.queue ≠ [] ∧ t.plain = plainStep outcome s.plain) := by
  have owned {w : Nat} {p : Worker} (hw : s.workers[w]? = some p) (hl : p.pc.Locked) :
      ∀ v, s.queueMutex = some v → v = w := by
    simp [(hs w p hw).mp hl]
  cases he with
  | lock w p hw hp hm =>
    have hb := hs.plain hw (by simp [hm])
    have ha := ht.plain (Retry.moveTo_self hw .testing) (by simp)
    exact .inl (ha.trans (by rw [hb,hp]; rfl))
  | leave w p hw hp hq =>
    have hb := hs.plain hw (owned hw (by simp [hp,Pc.Locked]))
    have ha := ht.plain (Retry.moveTo_self hw .returned) (by simp)
    exact .inl (ha.trans (by rw [hb,hp]; rfl))
  | enter w p hw hp hq =>
    have ho := owned hw (by simp [hp,Pc.Locked])
    have ha := ht.plain (Retry.moveTo_self hw (.batch 0)) ho
    exact .inl (ha.trans (by rw [hs.plain hw ho,hp]; rfl))
  | pop w p i request rest hw hp hi hq =>
    have ho := owned hw (by simp [hp,Pc.Locked])
    have ha := ht.plain (Retry.moveTo_self hw (.sending i request)) ho
    exact .inl (ha.trans (by rw [hs.plain hw ho,hp,hq]; rfl))
  | pause w p i hw hp =>
    have ho := owned hw (by simp [hp,Pc.Locked])
    have ha := ht.plain (Retry.moveTo_self hw .pausing) ho
    exact .inl (ha.trans (by rw [hs.plain hw ho,hp]; rfl))
  | send w p i request hw hp =>
    have ho := owned hw (by simp [hp,Pc.Locked])
    have hb := hs.plain hw ho
    have ha := ht.plain (Retry.moveTo_self hw (.batch (i+1))) ho
    rw [hp] at hb
    refine .inr ⟨by simp [hb,Pc.inHand],ha.trans ?_⟩
    rw [hb]
    rfl
  | unlock w p hw hp =>
    have hb := hs.plain hw (owned hw (by simp [hp,Pc.Locked]))
    have ha := ht.plain (Retry.moveTo_self hw .top) (by simp)
    exact .inl (ha.trans (by rw [hb,hp]; rfl))

/-- The concurrent batch workers refine the plain loop; a send is its only visible step. -/
theorem retry_refines_plain (batchSizes : List Int) :
    (system initial batchSizes outcome).Refines (plainSystem outcome initial) Retry.plain where
  init := by
    rintro s rfl
    have hnil : Retry.inFlight
        { requestQueue := initial, workers := batchSizes.map fun b => { batchSize := b } } = [] := by
      simp [Retry.inFlight,List.flatMap_map,Pc.inHand]
    simp [Retry.plain,plainSystem,hnil]
  step s w t hs ht := by
    have he := Retry.step_effect w ht
    rcases effect_plain (retry_exclusive hs) (retry_exclusive (hs.next w ht)) he with h | ⟨hq,h⟩
    · exact .inl h
    · exact .inr ⟨(),by simp [plainSystem,hq,h]⟩

theorem retry_plain_run {batchSizes : List Int} {s : Retry}
    (h : (system initial batchSizes outcome).Reachable s) :
    ∃ m, s.plain = plainRun outcome initial m :=
  plain_reachable_run ((retry_refines_plain batchSizes).reachable h)

/-- Steps a worker can take before its next send or return, counted from where it stands. -/
def Worker.distance (p : Worker) : Nat :=
  match p.pc with
  | .returned => 0
  | .sending _ _ => 1
  | .batch i => if i < p.batchSize then 2 else 6
  | .testing => 3
  | .top => 4
  | .pausing => 5

def Retry.distance (s : Retry) : Nat := (s.workers.map Worker.distance).sum

theorem Retry.distance_moveTo {s : Retry} {w : Nat} {p : Worker} (hw : s.workers[w]? = some p)
    (pc : Pc) : (s.moveTo w p pc).distance + p.distance =
      s.distance + Worker.distance { p with pc := pc } :=
  ListUpdate.sum_map_set Worker.distance hw _

theorem Retry.sum_lt (f : Worker → Nat) {s t : Retry} {w : Nat} {p : Worker} {pc : Pc}
    (hw : s.workers[w]? = some p) (ht : t.workers = (s.moveTo w p pc).workers)
    (h : f { p with pc := pc } < f p) : (t.workers.map f).sum < (s.workers.map f).sum := by
  have hsum : ((s.moveTo w p pc).workers.map f).sum + f p = (s.workers.map f).sum + f { p with pc := pc } :=
    ListUpdate.sum_map_set f hw _
  rw [ht]
  omega

/-- While requests remain, a step that sends nothing brings its worker closer to a send. -/
theorem effect_progress {s t : Retry} (hb : ∀ p ∈ s.workers, 1 ≤ p.batchSize)
    (hs : s.Exclusive) (hq : s.plain.queue ≠ []) (he : Effect outcome s t) :
    (t.sends.length = s.sends.length + 1 ∧ t.distance ≤ s.distance + 5) ∨
      (t.sends.length = s.sends.length ∧ t.distance < s.distance) := by
  have queued {w : Nat} {p : Worker} (hw : s.workers[w]? = some p) (hl : p.pc.Locked)
      (hp : p.pc.inHand = []) : s.requestQueue ≠ [] := by
    have ho := (hs w p hw).mp hl
    rw [hs.plain hw (by simp [ho]),hp] at hq
    exact hq
  cases he with
  | lock w p hw hp => exact .inr ⟨rfl,Retry.sum_lt Worker.distance hw rfl (by simp [Worker.distance,hp])⟩
  | leave w p hw hp hnil => exact absurd hnil (queued hw (by simp [hp,Pc.Locked]) (by simp [hp,Pc.inHand]))
  | enter w p hw hp =>
    have hpos : 0 < p.batchSize := hb p (List.mem_of_getElem? hw)
    exact .inr ⟨rfl,Retry.sum_lt Worker.distance hw rfl (by simp [Worker.distance,hp,hpos])⟩
  | pop w p i request rest hw hp hi =>
    exact .inr ⟨rfl,Retry.sum_lt Worker.distance hw rfl (by simp [Worker.distance,hp,hi])⟩
  | pause w p i hw hp hi =>
    have hne := queued hw (by simp [hp,Pc.Locked]) (by simp [hp,Pc.inHand])
    have hfull : ¬ i < p.batchSize := by
      have := hi.resolve_right hne
      omega
    exact .inr ⟨rfl,Retry.sum_lt Worker.distance hw rfl (by simp [Worker.distance,hp,hfull])⟩
  | send w p i request hw hp =>
    have h := Retry.distance_moveTo hw (.batch (i+1))
    simp only [Worker.distance,hp] at h
    refine .inl ⟨by simp,?_⟩
    change (s.moveTo w p (.batch (i+1))).distance ≤ s.distance + 5
    split at h <;> omega
  | unlock w p hw hp => exact .inr ⟨rfl,Retry.sum_lt Worker.distance hw rfl (by simp [Worker.distance,hp])⟩

/-- Every step moves one worker; it returns only from the emptiness test. -/
private theorem Effect.moves {s t : Retry} (he : Effect outcome s t) :
    ∃ w p pc, s.workers[w]? = some p ∧ t.workers = (s.moveTo w p pc).workers ∧
      (t.queueMutex = s.queueMutex ∨ t.queueMutex = none ∨ t.queueMutex = some w) ∧
      (pc = .returned → p.pc = .testing ∧ s.requestQueue = []) := by
  cases he with
  | lock w p hw => exact ⟨w,p,_,hw,rfl,.inr (.inr rfl),by simp⟩
  | leave w p hw hp hq => exact ⟨w,p,_,hw,rfl,.inr (.inl rfl),fun _ => ⟨hp,hq⟩⟩
  | enter w p hw
  | pop w p i request rest hw
  | pause w p i hw
  | send w p i request hw => exact ⟨w,p,_,hw,rfl,.inl rfl,by simp⟩
  | unlock w p hw => exact ⟨w,p,_,hw,rfl,.inr (.inl rfl),by simp⟩

/-- The workers keep their batch sizes, the mutex names a worker, and a worker has
returned only if nothing is queued or in flight. -/
structure Retry.Settled (batchSizes : List Int) (s : Retry) : Prop where
  sizes : s.workers.map Worker.batchSize = batchSizes
  owner : ∀ w, s.queueMutex = some w → w < s.workers.length
  drained : ∀ (w : Nat) p, s.workers[w]? = some p → p.pc = .returned → s.plain.queue = []

theorem plain_nil_effect {s t : Retry} (hs : s.Exclusive) (ht : t.Exclusive)
    (he : Effect outcome s t) (h : s.plain.queue = []) : t.plain.queue = [] := by
  rcases effect_plain hs ht he with hp | ⟨hq,_⟩
  · rw [hp,h]
  · exact absurd h hq

private theorem Retry.Settled.effect {batchSizes : List Int} {s t : Retry} (h : s.Settled batchSizes)
    (hs : s.Exclusive) (ht : t.Exclusive) (he : Effect outcome s t) : t.Settled batchSizes := by
  obtain ⟨w,p,pc,hw,hws,hm,hret⟩ := he.moves
  have hlt := (List.getElem?_eq_some_iff.mp hw).1
  have hlen : t.workers.length = s.workers.length := by rw [hws,Retry.moveTo,List.length_set]
  refine ⟨?_,?_,?_⟩
  · rw [hws,Retry.moveTo,List.map_set,h.sizes,← h.sizes]
    apply List.ext_getElem? fun v => ?_
    by_cases hv : w = v
    · subst v
      simp [List.getElem?_set_self (show w < (s.workers.map Worker.batchSize).length by simpa using hlt),hw]
    · rw [List.getElem?_set_ne hv]
  · intro v hv
    rw [hlen]
    rcases hm with hm | hm | hm
    · exact h.owner v (hm ▸ hv)
    · simp [hm] at hv
    · rw [hm] at hv
      exact Option.some.inj hv ▸ hlt
  · intro v q hv hq
    refine plain_nil_effect hs ht he ?_
    by_cases hvw : v = w
    · subst v
      rw [hws,Retry.moveTo_self hw] at hv
      cases hv
      obtain ⟨hp,hqueue⟩ := hret hq
      have ho := (hs w p hw).mp (by simp [hp,Pc.Locked])
      rw [hs.plain hw (by simp [ho]),hp,hqueue]
      rfl
    · rw [hws,Retry.moveTo,List.getElem?_set_ne (Ne.symm hvw)] at hv
      exact h.drained v q hv hq

theorem retry_settled {batchSizes : List Int} {s : Retry}
    (h : (system initial batchSizes outcome).Reachable s) : s.Settled batchSizes := by
  refine System.invariant (S := system initial batchSizes outcome) ?_ ?_ h
  · rintro s rfl
    refine ⟨by simp [Function.comp_def],by simp,?_⟩
    intro w p hw hp
    obtain ⟨b,_,rfl⟩ := List.mem_map.mp (List.mem_of_getElem? hw)
    cases hp
  · intro s w t hs hset ht
    exact hset.effect (retry_exclusive hs) (retry_exclusive (hs.next w ht)) (Retry.step_effect w ht)

theorem locked_enabled {s : Retry} {w : Nat} {p : Worker} (hw : s.workers[w]? = some p)
    (hl : p.pc.Locked) : ∃ t, s.processBatch outcome w = some t := by
  simp only [Retry.processBatch,hw,Option.bind_eq_bind,Option.bind_some]
  cases hp : p.pc with
  | top => simp [hp,Pc.Locked] at hl
  | returned => simp [hp,Pc.Locked] at hl
  | testing => by_cases hq : s.requestQueue.isEmpty <;> simp [hq]
  | batch i =>
    cases hq : s.requestQueue with
    | nil => simp
    | cons request rest => by_cases hi : i < p.batchSize <;> simp [hi]
  | sending i request => simp
  | pausing => simp

theorem active_enabled {batchSizes : List Int} {s : Retry} (h : (system initial batchSizes outcome).Reachable s)
    {w : Nat} {p : Worker} (hw : s.workers[w]? = some p) (hp : p.pc ≠ .returned) :
    ∃ w t, s.processBatch outcome w = some t := by
  cases hm : s.queueMutex with
  | some v =>
    have hv := List.getElem?_eq_getElem ((retry_settled h).owner v hm)
    exact ⟨v,locked_enabled hv ((retry_exclusive h v _ hv).mpr hm)⟩
  | none =>
    have hout : ¬ p.pc.Locked := fun hl => by
      simp [(retry_exclusive h w p hw).mp hl] at hm
    cases hpc : p.pc with
    | top =>
      exact ⟨w,{ s.moveTo w p .testing with queueMutex := some w },by
        simp [Retry.processBatch,hw,hpc,hm]⟩
    | returned => exact absurd hpc hp
    | testing
    | batch i
    | sending i request
    | pausing => simp [hpc,Pc.Locked] at hout

theorem Retry.Settled.size_pos {batchSizes : List Int} {s : Retry} (h : s.Settled batchSizes)
    (hb : ∀ b ∈ batchSizes, 1 ≤ b) : ∀ p ∈ s.workers, 1 ≤ p.batchSize :=
  fun _ hp => hb _ (h.sizes ▸ List.mem_map_of_mem hp)

theorem Retry.Settled.first {batchSizes : List Int} {s : Retry} (h : s.Settled batchSizes)
    (hw : 1 ≤ batchSizes.length) : ∃ p, s.workers[0]? = some p := by
  have hlen : 0 < s.workers.length := by
    rw [← List.length_map Worker.batchSize,h.sizes]
    exact hw
  exact ⟨_,List.getElem?_eq_getElem hlen⟩

theorem retry_enabled {batchSizes : List Int} (hw : 1 ≤ batchSizes.length) {s : Retry}
    (h : (system initial batchSizes outcome).Reachable s) (hq : s.plain.queue ≠ []) :
    ∃ w t, s.processBatch outcome w = some t := by
  have hs := retry_settled h
  obtain ⟨p,hp⟩ := hs.first hw
  exact active_enabled h hp fun hpc => hq (hs.drained 0 p hp hpc)

private theorem sends_eventually {batchSizes : List Int} (hw : 1 ≤ batchSizes.length)
    (hb : ∀ b ∈ batchSizes, 1 ≤ b) (e : (system initial batchSizes outcome).Execution) (m : Nat) :
    ∃ n, (plainRun outcome initial m).sends.length ≤ (e.state n).sends.length := by
  let goal := (plainRun outcome initial m).sends.length
  obtain ⟨n,_,hn⟩ := e.eventually (fun s => goal ≤ s.sends.length)
    (fun s => 6 * (goal - s.sends.length) + s.distance) (by
      intro s hs hlt
      have hq : s.plain.queue ≠ [] := by
        intro hq
        obtain ⟨k,hk⟩ := retry_plain_run hs
        have hle := (plainRun_finished (hk ▸ hq) m).length_le
        rw [← hk] at hle
        exact hlt hle
      refine ⟨retry_enabled hw hs hq,fun w t ht => .inr ?_⟩
      have hstep := effect_progress ((retry_settled hs).size_pos hb) (retry_exclusive hs) hq
        (Retry.step_effect w ht)
      omega) 0
  exact ⟨n,hn⟩

/-- Batching and worker count are transparent. At every point the sends made are the
sends of some number of plain iterations, and every complete run of the workers makes
all the sends of the plain loop, so the two send sequences are the same. -/
theorem batching_transparent (initial : List String) (batchSizes : List Int) (outcome : Nat → Bool)
    (hw : 1 ≤ batchSizes.length) (hb : ∀ b ∈ batchSizes, 1 ≤ b) :
    (∀ s, (system initial batchSizes outcome).Reachable s →
      ∃ m, s.sends = (plainRun outcome initial m).sends) ∧
    ∀ (e : (system initial batchSizes outcome).Execution) (m : Nat),
      ∃ n, (plainRun outcome initial m).sends <+: (e.state n).sends := by
  have hplain (s : Retry) (h : (system initial batchSizes outcome).Reachable s) :
      ∃ m, s.sends = (plainRun outcome initial m).sends := by
    obtain ⟨m,hm⟩ := retry_plain_run h
    exact ⟨m,congrArg Plain.sends hm⟩
  refine ⟨hplain,fun e m => ?_⟩
  obtain ⟨n,hn⟩ := sends_eventually hw hb e m
  obtain ⟨k,hk⟩ := hplain _ (e.reachable n)
  refine ⟨n,?_⟩
  rw [hk] at hn ⊢
  exact List.prefix_of_prefix_length_le (plainRun_mono (Nat.le_max_left m k))
    (plainRun_mono (Nat.le_max_right m k)) hn

/-- Two workers on two requests, the first send failing. -/
def flakyOutcome (k : Nat) : Bool := k != 0

def flakyEnd : Retry where
  requestQueue := []
  workers := [⟨1,.top⟩,⟨3,.batch 2⟩]
  queueMutex := some 1
  sends := [("a",false),("b",true),("a",true)]

theorem batching_transparent_two_workers :
    (system ["a","b"] [1,3] flakyOutcome).Reachable flakyEnd ∧
      ∃ m, flakyEnd.sends = (plainRun flakyOutcome ["a","b"] m).sends := by
  have hr : (system ["a","b"] [1,3] flakyOutcome).Reachable flakyEnd :=
    .run (.init rfl) [0,0,0,0,0,0,1,1,1,1,1,1] (by decide)
  exact ⟨hr,(batching_transparent ["a","b"] [1,3] flakyOutcome (by decide) (by decide)).1 flakyEnd hr⟩

end MyCpp.BatchRetry
