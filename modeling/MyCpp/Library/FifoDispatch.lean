import Mathlib.Data.List.Nodup
import Mathlib.Data.List.Perm.Basic
import Mathlib.Logic.Function.Basic
import MyCpp.Library.TransitionSystem

/-! First-in first-out dispatch of jobs to workers, over arbitrary workers and jobs.
Jobs may repeat, so an occurrence is named by its position in the taking order. -/
namespace MyCpp.FifoDispatch
open TransitionSystem
variable {W T : Type*}

/-- A finished occurrence, with the worker that ran it. -/
structure Execution (W T : Type*) where
  worker : W
  occ : Nat
  task : T
  deriving DecidableEq

structure Dispatch (W T : Type*) where
  pushed : List T
  queue : List T
  taken : List (W × T)
  held : W → Option (Nat × T)
  executed : List (Execution W T)

inductive Act (W T : Type*) where
  | push (task : T)
  | take (worker : W)
  | finish (worker : W)

namespace Dispatch

/-- Nothing submitted, nothing held. -/
def Fresh (d : Dispatch W T) : Prop :=
  d.pushed = [] ∧ d.queue = [] ∧ d.taken = [] ∧ d.executed = [] ∧ ∀ w, d.held w = none

/-- The bookkeeping every dispatch keeps: order, and one owner for each occurrence. -/
structure Sound (d : Dispatch W T) : Prop where
  fifo : d.pushed = d.taken.map Prod.snd ++ d.queue
  held : ∀ w occ t, d.held w = some (occ,t) →
    d.taken[occ]? = some (w,t) ∧ occ ∉ d.executed.map Execution.occ
  done : ∀ e ∈ d.executed, d.taken[e.occ]? = some (e.worker,e.task)
  once : (d.executed.map Execution.occ).Nodup
  covered : ∀ occ w t, d.taken[occ]? = some (w,t) →
    d.held w = some (occ,t) ∨ ⟨w,occ,t⟩ ∈ d.executed

theorem Fresh.sound {d : Dispatch W T} (h : d.Fresh) : d.Sound := by
  obtain ⟨hp,hq,ht,he,hh⟩ := h
  constructor <;> simp [hp,hq,ht,he,hh]

variable [DecidableEq W]

def step (d : Dispatch W T) : Act W T → Option (Dispatch W T)
  | .push t => some { d with pushed := d.pushed ++ [t], queue := d.queue ++ [t] }
  | .take w => match d.queue, d.held w with
    | t :: rest, none => some { d with
        queue := rest
        taken := d.taken ++ [(w,t)]
        held := Function.update d.held w (some (d.taken.length,t)) }
    | _, _ => none
  | .finish w => match d.held w with
    | some (occ,t) => some { d with
        held := Function.update d.held w none
        executed := d.executed ++ [⟨w,occ,t⟩] }
    | none => none

def system : System (Dispatch W T) (Act W T) := ⟨Fresh,step⟩

theorem Sound.take {d : Dispatch W T} (h : d.Sound) {w : W} {t : T} {rest : List T}
    (hq : d.queue = t :: rest) (hw : d.held w = none) :
    Sound { d with
      queue := rest
      taken := d.taken ++ [(w,t)]
      held := Function.update d.held w (some (d.taken.length,t)) } := by
  have hlt {occ : Nat} {p : W × T} (hp : d.taken[occ]? = some p) : occ < d.taken.length :=
    (List.getElem?_eq_some_iff.mp hp).1
  have hkeep {occ : Nat} {p : W × T} (hp : d.taken[occ]? = some p) :
      (d.taken ++ [(w,t)])[occ]? = some p := by
    rw [List.getElem?_append_left (hlt hp), hp]
  refine ⟨?_,?_,fun e he => hkeep (h.done e he),h.once,?_⟩
  · simp [h.fifo,hq]
  · intro v occ u hv
    by_cases hvw : v = w
    · subst v
      simp only [Function.update_self, Option.some.injEq, Prod.mk.injEq] at hv
      obtain ⟨rfl,rfl⟩ := hv
      refine ⟨by simp,?_⟩
      intro hm
      obtain ⟨e,he,ho⟩ := List.mem_map.mp hm
      have := hlt (h.done e he)
      omega
    · dsimp only at hv
      rw [Function.update_of_ne hvw] at hv
      exact ⟨hkeep (h.held v occ u hv).1,(h.held v occ u hv).2⟩
  · intro occ v u hu
    by_cases ho : occ < d.taken.length
    · rw [List.getElem?_append_left ho] at hu
      rcases h.covered occ v u hu with hh | hh
      · have hvw : v ≠ w := by
          rintro rfl
          simp [hw] at hh
        exact .inl (by simpa [Function.update_of_ne hvw] using hh)
      · exact .inr hh
    · obtain rfl : occ = d.taken.length := by
        have := (List.getElem?_eq_some_iff.mp hu).1
        simp at this
        omega
      simp only [List.getElem?_concat_length, Option.some.injEq, Prod.mk.injEq] at hu
      obtain ⟨rfl,rfl⟩ := hu
      exact .inl (by simp)

theorem Sound.finish {d : Dispatch W T} (h : d.Sound) {w : W} {occ : Nat} {t : T}
    (hw : d.held w = some (occ,t)) :
    Sound { d with
      held := Function.update d.held w none
      executed := d.executed ++ [⟨w,occ,t⟩] } := by
  obtain ⟨htaken,hnew⟩ := h.held w occ t hw
  refine ⟨h.fifo,?_,?_,?_,?_⟩
  · intro v o u hv
    have hvw : v ≠ w := by
      rintro rfl
      simp at hv
    dsimp only at hv
    rw [Function.update_of_ne hvw] at hv
    obtain ⟨ht,hn⟩ := h.held v o u hv
    refine ⟨ht,?_⟩
    have ho : o ≠ occ := by
      rintro rfl
      rw [htaken] at ht
      simp only [Option.some.injEq, Prod.mk.injEq] at ht
      exact hvw ht.1.symm
    simpa [ho] using hn
  · intro e he
    rcases List.mem_append.mp he with he | he
    · exact h.done e he
    · rw [List.mem_singleton.mp he]
      exact htaken
  · simpa [List.nodup_append] using ⟨h.once,fun e he ho => hnew (List.mem_map.mpr ⟨e,he,ho⟩)⟩
  · intro o v u hu
    rcases h.covered o v u hu with hh | hh
    · by_cases hvw : v = w
      · subst v
        rw [hw] at hh
        simp only [Option.some.injEq, Prod.mk.injEq] at hh
        obtain ⟨rfl,rfl⟩ := hh
        exact .inr (by simp)
      · exact .inl (by simpa [Function.update_of_ne hvw] using hh)
    · exact .inr (List.mem_append_left _ hh)

theorem Sound.step {d e : Dispatch W T} (h : d.Sound) (a : Act W T) (hs : d.step a = some e) :
    e.Sound := by
  cases a with
  | push t =>
    cases hs
    exact ⟨by simp [h.fifo],h.held,h.done,h.once,h.covered⟩
  | take w =>
    simp only [Dispatch.step] at hs
    split at hs
    · rename_i t rest hq hw
      cases hs
      exact h.take hq hw
    · cases hs
  | finish w =>
    simp only [Dispatch.step] at hs
    split at hs
    · rename_i occ t hw
      cases hs
      exact h.finish hw
    · cases hs

theorem sound {d : Dispatch W T} (h : system.Reachable d) : d.Sound :=
  System.invariant (S := system) (fun _ hi => Fresh.sound hi) (fun _ a _ _ hd hs => hd.step a hs) h

omit [DecidableEq W] in
/-- Each taken occurrence has exactly one owner or exactly one execution, and either
belongs to the worker that took it. -/
theorem Sound.owner {d : Dispatch W T} (h : d.Sound) {occ : Nat} {w : W} {t : T}
    (ht : d.taken[occ]? = some (w,t)) :
    (d.held w = some (occ,t) ∧ (∀ v u, d.held v = some (occ,u) → v = w) ∧
      ∀ e ∈ d.executed, e.occ ≠ occ) ∨
    ((∀ v u, d.held v ≠ some (occ,u)) ∧
      d.executed.filter (fun e => e.occ = occ) = [⟨w,occ,t⟩]) := by
  rcases h.covered occ w t ht with hh | hh
  · refine .inl ⟨hh,?_,?_⟩
    · intro v u hv
      have := (h.held v occ u hv).1
      rw [ht] at this
      simp only [Option.some.injEq, Prod.mk.injEq] at this
      exact this.1.symm
    · intro e he ho
      exact (h.held w occ t hh).2 (List.mem_map.mpr ⟨e,he,ho⟩)
  · refine .inr ⟨fun v u hv => (h.held v occ u hv).2 (List.mem_map.mpr ⟨_,hh,rfl⟩),?_⟩
    have hn : (d.executed.filter fun e => e.occ = occ).Nodup :=
      (List.Nodup.of_map _ h.once).filter _
    apply List.perm_singleton.mp
    refine (List.perm_ext_iff_of_nodup hn (by simp)).mpr fun e => ?_
    simp only [List.mem_filter, decide_eq_true_eq, List.mem_singleton]
    constructor
    · rintro ⟨he,ho⟩
      have := h.done e he
      rw [ho,ht] at this
      simp only [Option.some.injEq, Prod.mk.injEq] at this
      cases e
      simp_all
    · rintro rfl
      exact ⟨hh,rfl⟩

omit [DecidableEq W] in
/-- With no job waiting and none held, the executions are the submissions, once each. -/
theorem Sound.drained {d : Dispatch W T} (h : d.Sound) (hq : d.queue = [])
    (hh : ∀ w, d.held w = none) :
    (d.executed.map fun e => (e.task,e.occ)).Perm d.pushed.zipIdx := by
  have hp : d.pushed = d.taken.map Prod.snd := by simpa [hq] using h.fifo
  have hnl : (d.executed.map fun e => (e.task,e.occ)).Nodup := by
    apply List.Nodup.of_map Prod.snd
    simpa [List.map_map,Function.comp_def] using h.once
  have hnr : d.pushed.zipIdx.Nodup := by
    apply List.Nodup.of_map Prod.snd
    rw [List.zipIdx_map_snd]
    exact List.nodup_range'
  refine (List.perm_ext_iff_of_nodup hnl hnr).mpr ?_
  rintro ⟨t,occ⟩
  rw [List.mem_zipIdx_iff_getElem?, hp, List.getElem?_map]
  constructor
  · intro hm
    obtain ⟨e,he,ho⟩ := List.mem_map.mp hm
    simp only [Prod.mk.injEq] at ho
    obtain ⟨rfl,rfl⟩ := ho
    simp [h.done e he]
  · intro hm
    obtain ⟨⟨w,u⟩,hu,rfl⟩ := Option.map_eq_some_iff.mp hm
    rcases h.covered occ w u hu with hc | hc
    · simp [hh w] at hc
    · exact List.mem_map.mpr ⟨_,hc,rfl⟩

end Dispatch
end MyCpp.FifoDispatch
