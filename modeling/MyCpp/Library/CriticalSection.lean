import MyCpp.Library.TransitionSystem

/-! An object whose operations run step by step under one mutex, called from any number of
threads. Between two sections the object is what the operations make of it one after another,
in the order in which they took the mutex. -/
namespace MyCpp.CriticalSection
open TransitionSystem
variable {σ ι κ ε : Type*}

/-- The section of an operation: where it starts, and what one step does to the object. No next
place means that the section is at its end; `takes` tells which operations have a section. -/
structure Guarded (σ ι κ ε : Type*) where
  takes : ι → Bool
  enter : ι → κ
  move : κ → σ → ε → Option (σ × Option κ)

inductive Pc (ι κ : Type*) where
  | idle
  | waiting (op : ι)
  | inside (op : ι) (place : κ)
  | leaving

/-- The object, its mutex and the threads. The last two fields record the operations in the order
in which they were called and in which they took the mutex. -/
structure Shared (σ ι κ : Type*) where
  object : σ
  owner : Option Nat := none
  threads : List (Pc ι κ)
  called : List (Nat × ι) := []
  order : List (Nat × ι) := []

inductive Action (ι ε : Type*) where
  | call (thread : Nat) (op : ι)
  | lock (thread : Nat)
  | move (thread : Nat) (choice : ε)
  | unlock (thread : Nat)

namespace Guarded
variable (G : Guarded σ ι κ ε)

def step (s : Shared σ ι κ) : Action ι ε → Option (Shared σ ι κ)
  | .call w op => match s.threads[w]? with
    | some .idle => some { s with
        threads := if G.takes op then s.threads.set w (.waiting op) else s.threads
        called := s.called ++ [(w,op)] }
    | _ => none
  | .lock w => match s.owner, s.threads[w]? with
    | none, some (.waiting op) => some { s with
        owner := some w
        threads := s.threads.set w (.inside op (G.enter op))
        order := s.order ++ [(w,op)] }
    | _, _ => none
  | .move w choice => match s.threads[w]? with
    | some (.inside op place) => (G.move place s.object choice).map fun r => { s with
        object := r.1
        threads := s.threads.set w (match r.2 with
          | some next => .inside op next
          | none => .leaving) }
    | _ => none
  | .unlock w => match s.threads[w]? with
    | some .leaving => some { s with owner := none, threads := s.threads.set w .idle }
    | _ => none

def system (first : σ) (threads : Nat) : System (Shared σ ι κ) (Action ι ε) where
  init s := s = { object := first, threads := List.replicate threads .idle }
  step := G.step

/-- How far an operation has come that found the object in a given state. -/
inductive During (op : ι) (before : σ) : κ → σ → Prop where
  | enter : During op before (G.enter op) before
  | move {place next : κ} {o o' : σ} (choice : ε) (h : During op before place o)
      (hmove : G.move place o choice = some (o',some next)) : During op before next o'

/-- What an operation makes of the object when nobody interferes. -/
def Complete (op : ι) (before after : σ) : Prop :=
  ∃ place o choice, G.During op before place o ∧ G.move place o choice = some (after,none)

inductive Serial (first : σ) : List ι → σ → Prop where
  | nil : Serial first [] first
  | concat {ops : List ι} {op : ι} {before after : σ} (h : Serial first ops before)
      (hop : G.Complete op before after) : Serial first (ops ++ [op]) after

/-- What one step can do, guards included. -/
inductive Effect (s : Shared σ ι κ) : Shared σ ι κ → Prop where
  | skip (w : Nat) (op : ι) (hw : s.threads[w]? = some .idle) (htakes : G.takes op = false) :
      Effect s { s with called := s.called ++ [(w,op)] }
  | call (w : Nat) (op : ι) (hw : s.threads[w]? = some .idle) (htakes : G.takes op = true) :
      Effect s { s with threads := s.threads.set w (.waiting op), called := s.called ++ [(w,op)] }
  | lock (w : Nat) (op : ι) (hfree : s.owner = none) (hw : s.threads[w]? = some (.waiting op)) :
      Effect s { s with
        owner := some w
        threads := s.threads.set w (.inside op (G.enter op))
        order := s.order ++ [(w,op)] }
  | move (w : Nat) (op : ι) (place next : κ) (o : σ) (choice : ε) (hw : s.threads[w]? = some (.inside op place))
      (hmove : G.move place s.object choice = some (o,some next)) :
      Effect s { s with object := o, threads := s.threads.set w (.inside op next) }
  | last (w : Nat) (op : ι) (place : κ) (o : σ) (choice : ε) (hw : s.threads[w]? = some (.inside op place))
      (hmove : G.move place s.object choice = some (o,none)) :
      Effect s { s with object := o, threads := s.threads.set w .leaving }
  | unlock (w : Nat) (hw : s.threads[w]? = some .leaving) :
      Effect s { s with owner := none, threads := s.threads.set w .idle }

variable {G}

theorem step_effect {s t : Shared σ ι κ} (a : Action ι ε) (h : G.step s a = some t) : G.Effect s t := by
  cases a with
  | call w op =>
    simp only [step] at h
    split at h
    · rename_i hw
      cases htakes : G.takes op with
      | true =>
        rw [if_pos htakes] at h
        cases h
        exact .call w op hw htakes
      | false =>
        rw [if_neg (Bool.eq_false_iff.mp htakes)] at h
        cases h
        exact .skip w op hw htakes
    · cases h
  | lock w =>
    simp only [step] at h
    split at h
    · rename_i op hfree hw
      cases h
      exact .lock w op hfree hw
    · cases h
  | move w choice =>
    simp only [step] at h
    split at h
    · rename_i op place hw
      obtain ⟨⟨o,next⟩,hmove,rfl⟩ := Option.map_eq_some_iff.mp h
      cases next with
      | some next => exact .move w op place next o choice hw hmove
      | none => exact .last w op place o choice hw hmove
    · cases h
  | unlock w =>
    simp only [step] at h
    split at h
    · rename_i hw
      cases h
      exact .unlock w hw
    · cases h

end Guarded

/-- A thread that does not hold the mutex. -/
def Pc.Outside : Pc ι κ → Prop
  | .idle => True
  | .waiting _ => True
  | _ => False

def Shared.OthersOutside (s : Shared σ ι κ) (w : Nat) : Prop :=
  ∀ v pc, v ≠ w → s.threads[v]? = some pc → pc.Outside

namespace Guarded
variable {G : Guarded σ ι κ ε} {first : σ} {s t : Shared σ ι κ}

/-- The object between two sections, in the middle of one and at the end of one. -/
inductive Held (G : Guarded σ ι κ ε) (first : σ) (s : Shared σ ι κ) : Prop where
  | free (hfree : s.owner = none) (hall : ∀ (v : Nat) pc, s.threads[v]? = some pc → pc.Outside)
      (hserial : G.Serial first (s.order.map Prod.snd) s.object)
  | inside (w : Nat) (op : ι) (place : κ) (earlier : List (Nat × ι)) (before : σ) (howner : s.owner = some w)
      (hw : s.threads[w]? = some (.inside op place)) (hothers : s.OthersOutside w)
      (horder : s.order = earlier ++ [(w,op)]) (hserial : G.Serial first (earlier.map Prod.snd) before)
      (hduring : G.During op before place s.object)
  | leaving (w : Nat) (howner : s.owner = some w) (hw : s.threads[w]? = some .leaving)
      (hothers : s.OthersOutside w) (hserial : G.Serial first (s.order.map Prod.snd) s.object)

theorem Held.of_inside (h : G.Held first s) {w : Nat} {op : ι} {place : κ}
    (hw : s.threads[w]? = some (.inside op place)) : s.owner = some w ∧ s.OthersOutside w ∧
      ∃ earlier before, s.order = earlier ++ [(w,op)] ∧ G.Serial first (earlier.map Prod.snd) before ∧
        G.During op before place s.object := by
  cases h with
  | free _ hall _ => exact (hall w _ hw).elim
  | inside v op' place' earlier before howner hv hothers horder hserial hduring =>
    by_cases hvw : w = v
    · subst hvw
      cases hv.symm.trans hw
      exact ⟨howner,hothers,earlier,before,horder,hserial,hduring⟩
    · exact (hothers w _ hvw hw).elim
  | leaving v _ hv hothers _ =>
    by_cases hvw : w = v
    · subst hvw
      cases hv.symm.trans hw
    · exact (hothers w _ hvw hw).elim

theorem Held.of_leaving (h : G.Held first s) {w : Nat} (hw : s.threads[w]? = some .leaving) :
    s.OthersOutside w ∧ G.Serial first (s.order.map Prod.snd) s.object := by
  cases h with
  | free _ hall _ => exact (hall w _ hw).elim
  | inside v op place _ _ _ hv hothers =>
    by_cases hvw : w = v
    · subst hvw
      cases hv.symm.trans hw
    · exact (hothers w _ hvw hw).elim
  | leaving v _ hv hothers hserial =>
    by_cases hvw : w = v
    · subst hvw
      exact ⟨hothers,hserial⟩
    · exact (hothers w _ hvw hw).elim

private theorem threads_set_cases {threads : List (Pc ι κ)} {w v : Nat} {pc pc' : Pc ι κ}
    (hv : (threads.set w pc)[v]? = some pc') : (v = w ∧ pc' = pc) ∨ (v ≠ w ∧ threads[v]? = some pc') := by
  by_cases hvw : v = w
  · subst hvw
    rw [List.getElem?_set] at hv
    split at hv
    · split at hv
      · exact .inl ⟨rfl,(Option.some.inj hv).symm⟩
      · cases hv
    · exact absurd rfl ‹_›
  · rw [List.getElem?_set_ne (Ne.symm hvw)] at hv
    exact .inr ⟨hvw,hv⟩

private theorem threads_set_self {threads : List (Pc ι κ)} {w : Nat} {old : Pc ι κ}
    (hw : threads[w]? = some old) (pc : Pc ι κ) : (threads.set w pc)[w]? = some pc :=
  List.getElem?_set_self (List.getElem?_eq_some_iff.mp hw).1

private theorem othersOutside_set {w : Nat} {pc : Pc ι κ} (h : s.OthersOutside w)
    (ht : t.threads = s.threads.set w pc) : t.OthersOutside w := by
  intro v pc' hvw hv
  rw [ht] at hv
  rcases threads_set_cases hv with ⟨rfl,_⟩ | ⟨_,hv⟩
  · exact absurd rfl hvw
  · exact h v pc' hvw hv

private theorem Held.outside (h : G.Held first s) {w : Nat} {old : Pc ι κ} (hw : s.threads[w]? = some old)
    (hold : old.Outside) (pc : Pc ι κ) (hpc : pc.Outside) (called : List (Nat × ι)) :
    G.Held first { s with threads := s.threads.set w pc, called := called } := by
  have hmoved {v : Nat} (h : s.OthersOutside v) :
      ({ s with threads := s.threads.set w pc, called := called } : Shared σ ι κ).OthersOutside v := by
    intro u pc' huv hu
    rcases threads_set_cases hu with ⟨_,rfl⟩ | ⟨_,hu⟩
    · exact hpc
    · exact h u pc' huv hu
  have hstays {v : Nat} {pc' : Pc ι κ} (hv : s.threads[v]? = some pc') (hpc' : ¬ pc'.Outside) :
      (s.threads.set w pc)[v]? = some pc' := by
    have hvw : w ≠ v := by
      rintro rfl
      cases hw.symm.trans hv
      exact hpc' hold
    rw [List.getElem?_set_ne hvw,hv]
  cases h with
  | free hfree hall hserial =>
    refine .free hfree (fun v pc' hv => ?_) hserial
    rcases threads_set_cases hv with ⟨_,rfl⟩ | ⟨_,hv⟩
    · exact hpc
    · exact hall v pc' hv
  | inside v op place earlier before howner hv hothers horder hserial hduring =>
    exact .inside v op place earlier before howner (hstays hv id) (hmoved hothers) horder hserial hduring
  | leaving v howner hv hothers hserial => exact .leaving v howner (hstays hv id) (hmoved hothers) hserial

theorem Held.effect (h : G.Held first s) (he : G.Effect s t) : G.Held first t := by
  cases he with
  | skip w op hw htakes =>
    cases h with
    | free hfree hall hserial => exact .free hfree hall hserial
    | inside v op' place earlier before howner hv hothers horder hserial hduring =>
      exact .inside v op' place earlier before howner hv hothers horder hserial hduring
    | leaving v howner hv hothers hserial => exact .leaving v howner hv hothers hserial
  | call w op hw htakes => exact h.outside hw trivial (.waiting op) trivial _
  | lock w op hfree hw =>
    cases h with
    | free _ hall hserial =>
      refine .inside w op _ s.order s.object rfl (threads_set_self hw _) ?_ rfl hserial .enter
      exact othersOutside_set (fun v pc _ hv => hall v pc hv) rfl
    | inside v _ _ _ _ howner => cases hfree.symm.trans howner
    | leaving v howner => cases hfree.symm.trans howner
  | move w op place next o choice hw hmove =>
    obtain ⟨howner,hothers,earlier,before,horder,hserial,hduring⟩ := h.of_inside hw
    exact .inside w op next earlier before howner (threads_set_self hw _) (othersOutside_set hothers rfl)
      horder hserial (hduring.move choice hmove)
  | last w op place o choice hw hmove =>
    obtain ⟨howner,hothers,earlier,before,horder,hserial,hduring⟩ := h.of_inside hw
    refine .leaving w howner (threads_set_self hw _) (othersOutside_set hothers rfl) ?_
    have hlast := hserial.concat ⟨place,s.object,choice,hduring,hmove⟩
    change G.Serial first (s.order.map Prod.snd) o
    rw [horder,List.map_append]
    exact hlast
  | unlock w hw =>
    obtain ⟨hothers,hserial⟩ := h.of_leaving hw
    refine .free rfl (fun v pc hv => ?_) hserial
    rcases threads_set_cases hv with ⟨_,rfl⟩ | ⟨hvw,hv⟩
    · trivial
    · exact hothers v pc hvw hv

theorem reachable_held {threads : Nat} (h : (G.system first threads).Reachable s) : G.Held first s := by
  refine System.invariant (P := G.Held first) ?_ (fun s a t _ hs ha => hs.effect (step_effect a ha)) h
  rintro s rfl
  refine .free rfl (fun v pc hv => ?_) .nil
  cases List.eq_of_mem_replicate (List.mem_of_getElem? hv)
  trivial

/-- Whenever the mutex is free, the operations have run one after another. -/
theorem serial_of_free {threads : Nat} (h : (G.system first threads).Reachable s) (hfree : s.owner = none) :
    G.Serial first (s.order.map Prod.snd) s.object := by
  cases reachable_held h with
  | free _ _ hserial => exact hserial
  | inside v _ _ _ _ howner => cases hfree.symm.trans howner
  | leaving v howner => cases hfree.symm.trans howner

theorem inside_unique {threads : Nat} (h : (G.system first threads).Reachable s) {v w : Nat} {op op' : ι}
    {place place' : κ} (hv : s.threads[v]? = some (.inside op place))
    (hw : s.threads[w]? = some (.inside op' place')) : v = w := by
  have hheld := reachable_held h
  exact Option.some.inj ((hheld.of_inside hv).1.symm.trans (hheld.of_inside hw).1)

end Guarded

def opsOf (w : Nat) (ops : List (Nat × ι)) : List ι := (ops.filter (·.1 = w)).map Prod.snd

theorem opsOf_concat (w v : Nat) (ops : List (Nat × ι)) (op : ι) :
    opsOf w (ops ++ [(v,op)]) = opsOf w ops ++ if v = w then [op] else [] := by
  by_cases h : v = w
  · simp [opsOf,h]
  · simp [opsOf,h]

def Pc.pending : Pc ι κ → List ι
  | .waiting op => [op]
  | _ => []

namespace Guarded
variable {G : Guarded σ ι κ ε} {first : σ} {s t : Shared σ ι κ}

/-- The operations of a thread take the mutex in the order of its program. -/
def Ordered (G : Guarded σ ι κ ε) (s : Shared σ ι κ) : Prop :=
  ∀ w pc, s.threads[w]? = some pc → (opsOf w s.called).filter G.takes = opsOf w s.order ++ pc.pending

private theorem Ordered.set (h : G.Ordered s) {w : Nat} {old pc : Pc ι κ} (hw : s.threads[w]? = some old)
    (hthreads : t.threads = s.threads.set w pc) (hpc : pc.pending = old.pending) (hcalled : t.called = s.called)
    (horder : t.order = s.order) : G.Ordered t := by
  intro v pc' hv
  rw [hcalled,horder]
  rw [hthreads] at hv
  rcases threads_set_cases hv with ⟨rfl,rfl⟩ | ⟨_,hv⟩
  · rw [hpc]
    exact h v old hw
  · exact h v pc' hv

theorem Ordered.effect (h : G.Ordered s) (he : G.Effect s t) : G.Ordered t := by
  cases he with
  | skip w op hw htakes =>
    intro v pc hv
    rw [opsOf_concat,List.filter_append,h v pc hv]
    split
    · rw [List.filter_cons_of_neg (Bool.eq_false_iff.mp htakes),List.filter_nil,List.append_nil]
    · rw [List.filter_nil,List.append_nil]
  | call w op hw htakes =>
    intro v pc hv
    rw [opsOf_concat,List.filter_append]
    rcases threads_set_cases hv with ⟨rfl,rfl⟩ | ⟨hvw,hv⟩
    · rw [if_pos rfl,List.filter_cons_of_pos htakes,List.filter_nil,h v _ hw]
      exact congrArg (· ++ [op]) (List.append_nil _)
    · rw [if_neg (Ne.symm hvw),List.filter_nil,List.append_nil]
      exact h v pc hv
  | lock w op hfree hw =>
    intro v pc hv
    rw [opsOf_concat]
    rcases threads_set_cases hv with ⟨rfl,rfl⟩ | ⟨hvw,hv⟩
    · rw [if_pos rfl]
      exact (h v _ hw).trans (List.append_nil _).symm
    · rw [if_neg (Ne.symm hvw),List.append_nil]
      exact h v pc hv
  | move w op place next o choice hw hmove => exact h.set hw rfl rfl rfl rfl
  | last w op place o choice hw hmove => exact h.set hw rfl rfl rfl rfl
  | unlock w hw => exact h.set hw rfl rfl rfl rfl

theorem reachable_ordered {threads : Nat} (h : (G.system first threads).Reachable s) : G.Ordered s := by
  refine System.invariant (P := G.Ordered) ?_ (fun s a t _ hs ha => hs.effect (step_effect a ha)) h
  rintro s rfl w pc hw
  cases List.eq_of_mem_replicate (List.mem_of_getElem? hw)
  rfl

/-- Only operations that take the mutex wait for it and get it. -/
structure Taking (G : Guarded σ ι κ ε) (s : Shared σ ι κ) : Prop where
  waiting : ∀ (w : Nat) op, s.threads[w]? = some (.waiting op) → G.takes op = true
  order : ∀ x ∈ s.order, G.takes x.2 = true

theorem Taking.effect (h : G.Taking s) (he : G.Effect s t) : G.Taking t := by
  have hset {w : Nat} {pc : Pc ι κ} (hpc : ∀ op, pc = .waiting op → G.takes op = true) (v : Nat) (op : ι)
      (hv : (s.threads.set w pc)[v]? = some (.waiting op)) : G.takes op = true := by
    rcases threads_set_cases hv with ⟨_,heq⟩ | ⟨_,hv⟩
    · exact hpc op heq.symm
    · exact h.waiting v op hv
  cases he with
  | skip w op hw htakes => exact ⟨h.waiting,h.order⟩
  | call w op hw htakes =>
    refine ⟨hset fun op' heq => ?_,h.order⟩
    cases heq
    exact htakes
  | lock w op hfree hw =>
    refine ⟨hset nofun,fun x hx => ?_⟩
    rcases List.mem_append.mp hx with hx | hx
    · exact h.order x hx
    · cases List.mem_singleton.mp hx
      exact h.waiting w op hw
  | move w op place next o choice hw hmove => exact ⟨hset nofun,h.order⟩
  | last w op place o choice hw hmove => exact ⟨hset nofun,h.order⟩
  | unlock w hw => exact ⟨hset nofun,h.order⟩

theorem reachable_taking {threads : Nat} (h : (G.system first threads).Reachable s) : G.Taking s := by
  refine System.invariant (P := G.Taking) ?_ (fun s a t _ hs ha => hs.effect (step_effect a ha)) h
  rintro s rfl
  refine ⟨fun w op hw => ?_,nofun⟩
  cases List.eq_of_mem_replicate (List.mem_of_getElem? hw)

end Guarded
end MyCpp.CriticalSection
