import Mathlib.Data.List.Nodup
import Mathlib.Data.List.Range
import Mathlib.Data.List.Perm.Subperm
import MyCpp.LoadGenerator.LoadModel

/-! The requests are started in order and once each, and the vector of futures never loses
one that is not complete, in the middle of a cleanup included. -/
namespace MyCpp.LoadGenerator
open TransitionSystem RemoveScan

/-- The counter lags behind std::async between the push_back and the increment. -/
def Pc.lag : Pc → Nat
  | .increment _ => 1
  | _ => 0

/-- Where the counter can be at a statement. -/
def Pc.Counts (total counter : Nat) : Pc → Prop
  | .push _ => counter < total
  | .increment _ => counter < total
  | .waitFor _ => counter = total
  | .returned => counter = total
  | _ => counter ≤ total

/-- What has been started and what is complete. -/
structure Counted (total : Nat) (s : Client) : Prop where
  started : s.started = List.range (s.requestCounter + s.pc.lag)
  counter : s.pc.Counts total s.requestCounter
  complete : ∀ r, s.complete r = true → r ∈ s.started
  polled : ∀ r ∈ s.polled, s.complete r = true

theorem Pc.Counts.le {total counter : Nat} {pc : Pc} (h : pc.Counts total counter) :
    counter + pc.lag ≤ total := by
  cases pc with
  | push i => exact Nat.le_of_lt h
  | increment i => exact h
  | waitFor it => exact Nat.le_of_eq h
  | returned => exact Nat.le_of_eq h
  | _ => exact h

private theorem polled_append {complete : Nat → Bool} {polled : List Nat} {r : Nat}
    (h : ∀ q ∈ polled, complete q = true) (hr : complete r = true) :
    ∀ q ∈ polled ++ [r], complete q = true := by
  intro q hq
  rcases List.mem_append.mp hq with hq | hq
  · exact h q hq
  · rw [List.mem_singleton.mp hq]
    exact hr

theorem Counted.goto {total : Nat} {s t : Client} (h : Counted total s) (hc : t.complete = s.complete)
    (hstarted : t.started = s.started) (hsame : t.requestCounter + t.pc.lag = s.requestCounter + s.pc.lag)
    (hcounter : t.pc.Counts total t.requestCounter) (hpolled : ∀ r ∈ t.polled, s.complete r = true) :
    Counted total t := by
  refine ⟨?_,hcounter,?_,?_⟩
  · rw [hstarted,hsame]
    exact h.started
  · rw [hc,hstarted]
    exact h.complete
  · rw [hc]
    exact hpolled

theorem Counted.step {total perSecond : Nat} {s t : Client} (h : Counted total s)
    (hs : Effect total perSecond s t) : Counted total t := by
  have hcounter := h.counter
  cases hs with
  | push i hpc =>
    rw [hpc] at hcounter
    refine ⟨?_,hcounter,?_,h.polled⟩
    · show s.started ++ [s.requestCounter] = List.range (s.requestCounter + 1)
      rw [h.started,hpc,List.range_succ]
      rfl
    · intro r hr
      exact List.mem_append_left _ (h.complete r hr)
  | complete r hr hc =>
    refine ⟨h.started,hcounter,?_,?_⟩
    · intro q (hq : Function.update s.complete r true q = true)
      by_cases hqr : q = r
      · rw [hqr]
        exact hr
      · rw [Function.update_of_ne hqr] at hq
        exact h.complete q hq
    · intro q hq
      show Function.update s.complete r true q = true
      by_cases hqr : q = r
      · rw [hqr]
        exact Function.update_self ..
      · rw [Function.update_of_ne hqr]
        exact h.polled q hq
  | leave hpc hc =>
    rw [hpc] at hcounter
    exact h.goto rfl rfl (hpc ▸ rfl) (Nat.le_antisymm hcounter hc) h.polled
  | again i hpc hi hc => exact h.goto rfl rfl (hpc ▸ rfl) hc h.polled
  | found it r hpc hr hc
  | skip result it r hpc hr hc =>
    rw [hpc] at hcounter
    exact h.goto rfl rfl (hpc ▸ rfl) hcounter (polled_append h.polled hc)
  | enter hpc hc
  | batch i hpc hi
  | increment i hpc
  | sleep hpc
  | pass it r hpc hr hc
  | foundNone it hpc hr
  | move result it r hpc hr hc
  | scanned result it hpc hr
  | erase result hpc
  | waited it r hpc hr hc
  | returns it hpc hr =>
    rw [hpc] at hcounter
    exact h.goto rfl rfl (hpc ▸ rfl) hcounter h.polled

/-- How the vector is divided at a statement. -/
def Pc.Divides (complete : Nat → Bool) (kept : List Nat) (gap : List (Option Nat)) (unseen : List Nat) :
    Pc → Prop
  | .findReady it => gap = [] ∧ kept.length = it
  | .remove result it => gap ≠ [] ∧ kept.length = result ∧ kept.length + gap.length = it
  | .erase result => unseen = [] ∧ kept.length = result
  | .waitFor it => gap = [] ∧ kept.length = it ∧ ∀ r ∈ kept, complete r = true
  | .returned => gap = [] ∧ unseen = [] ∧ ∀ r ∈ kept, complete r = true
  | _ => gap = []

/-- The vector of futures: every started request is in it or was found ready, and what is
in the gap was found ready. -/
structure Divided (s : Client) (kept : List Nat) (gap : List (Option Nat)) (unseen : List Nat) : Prop where
  futures : s.futures = scan kept gap unseen
  place : s.pc.Divides s.complete kept gap unseen
  order : (kept ++ unseen).Sublist s.started
  known : ∀ r ∈ s.started, r ∈ kept ++ unseen ∨ r ∈ s.polled
  nodup : (kept ++ gap.filterMap id ++ unseen).Nodup
  ready : ∀ r, some r ∈ gap → s.complete r = true

theorem Divided.at {s : Client} {kept unseen : List Nat} {gap : List (Option Nat)} {it r : Nat}
    (h : Divided s kept gap unseen) (hit : kept.length + gap.length = it)
    (hr : s.futures[it]? = some (some r)) : ∃ rest, unseen = r :: rest := by
  cases unseen with
  | nil =>
    have hlen : s.futures.length = it := by
      rw [h.futures,scan_length,← hit]
      rfl
    rw [← hlen,List.getElem?_eq_none (Nat.le_refl _)] at hr
    cases hr
  | cons q rest =>
    rw [h.futures,← hit,scan_next] at hr
    cases hr
    exact ⟨rest,rfl⟩

theorem Divided.at_end {s : Client} {kept unseen : List Nat} {gap : List (Option Nat)} {it : Nat}
    (h : Divided s kept gap unseen) (hit : kept.length + gap.length = it)
    (hr : s.futures[it]? = none) : unseen = [] := by
  cases unseen with
  | nil => rfl
  | cons q rest =>
    rw [h.futures,← hit,scan_next] at hr
    cases hr

theorem Divided.goto {s t : Client} {kept unseen : List Nat} {gap : List (Option Nat)}
    (h : Divided s kept gap unseen) (hf : t.futures = s.futures) (hs : t.started = s.started)
    (hp : t.polled = s.polled) (hc : t.complete = s.complete)
    (hplace : t.pc.Divides t.complete kept gap unseen) : Divided t kept gap unseen :=
  ⟨hf.trans h.futures,hplace,hs ▸ h.order,hs ▸ hp ▸ h.known,h.nodup,hc ▸ h.ready⟩

/-- Without a gap the vector can be divided anywhere. -/
theorem Divided.resplit {s : Client} {kept unseen kept' unseen' : List Nat} {gap : List (Option Nat)}
    (h : Divided s kept gap unseen) (hg : gap = []) (he : kept' ++ unseen' = kept ++ unseen)
    {pc : Pc} (hplace : pc.Divides s.complete kept' [] unseen') :
    Divided { s with pc := pc } kept' [] unseen' := by
  subst hg
  have hn := h.nodup
  rw [List.filterMap_nil,List.append_nil] at hn
  refine ⟨?_,hplace,?_,?_,?_,nofun⟩
  · show s.futures = scan kept' [] unseen'
    rw [h.futures,scan,scan,List.append_nil,List.append_nil,← List.map_append,← List.map_append,he]
  · rw [he]
    exact h.order
  · rw [he]
    exact h.known
  · rw [List.filterMap_nil,List.append_nil,he]
    exact hn

theorem Divided.push {total : Nat} {s : Client} {kept unseen : List Nat} {gap : List (Option Nat)} {i : Nat}
    (h : Divided s kept gap unseen) (hcount : Counted total s) (hpc : s.pc = .push i) :
    Divided { s with
      futures := s.futures ++ [some s.requestCounter]
      started := s.started ++ [s.requestCounter]
      pc := .increment i } kept [] (unseen ++ [s.requestCounter]) := by
  have hplace := h.place
  rw [hpc] at hplace
  obtain rfl : gap = [] := hplace
  have horder : (kept ++ (unseen ++ [s.requestCounter])).Sublist (s.started ++ [s.requestCounter]) := by
    rw [← List.append_assoc]
    exact h.order.append_right _
  have hnodup : (s.started ++ [s.requestCounter]).Nodup := by
    rw [hcount.started,hpc]
    exact List.range_succ ▸ List.nodup_range
  refine ⟨?_,rfl,horder,?_,?_,nofun⟩
  · show s.futures ++ [some s.requestCounter] = _
    rw [h.futures]
    simp [scan]
  · intro r hr
    rw [← List.append_assoc]
    rcases List.mem_append.mp hr with hr | hr
    · rcases h.known r hr with hin | hpolled
      · exact .inl (List.mem_append_left _ hin)
      · exact .inr hpolled
    · exact .inl (List.mem_append_right _ hr)
  · rw [List.filterMap_nil,List.append_nil]
    exact hnodup.sublist horder

theorem Divided.drop {s : Client} {kept rest : List Nat} {gap : List (Option Nat)} {r : Nat}
    (h : Divided s kept gap (r :: rest)) (hc : s.complete r = true) {pc : Pc}
    (hplace : pc.Divides s.complete kept (gap ++ [some r]) rest) :
    Divided { s with pc := pc, polled := s.polled ++ [r] } kept (gap ++ [some r]) rest := by
  refine ⟨h.futures.trans (scan_skip ..),hplace,?_,?_,?_,?_⟩
  · exact ((List.sublist_cons_self r rest).append_left kept).trans h.order
  · intro q hq
    rcases h.known q hq with hin | hpolled
    · rcases List.mem_append.mp hin with hin | hin
      · exact .inl (List.mem_append_left _ hin)
      · rcases List.mem_cons.mp hin with rfl | hin
        · exact .inr (List.mem_append_right _ List.mem_cons_self)
        · exact .inl (List.mem_append_right _ hin)
    · exact .inr (List.mem_append_left _ hpolled)
  · have hn := h.nodup
    simpa using hn
  · intro q hq
    rcases List.mem_append.mp hq with hq | hq
    · exact h.ready q hq
    · cases List.mem_singleton.mp hq
      exact hc

/-- A future that is not ready moves to the front of the gap. -/
theorem Divided.move {s : Client} {kept rest : List Nat} {slot : Option Nat} {gap : List (Option Nat)} {r : Nat}
    (h : Divided s kept (slot :: gap) (r :: rest)) {pc : Pc}
    (hplace : pc.Divides s.complete (kept ++ [r]) (gap ++ [none]) rest) :
    Divided { s with
      futures := (s.futures.set kept.length (some r)).set (kept.length + (slot :: gap).length) none
      pc := pc } (kept ++ [r]) (gap ++ [none]) rest := by
  have hsame : kept ++ r :: rest = kept ++ [r] ++ rest := by simp
  refine ⟨?_,hplace,?_,?_,?_,?_⟩
  · show (s.futures.set kept.length (some r)).set (kept.length + (slot :: gap).length) none = _
    rw [h.futures,scan_move]
  · rw [← hsame]
    exact h.order
  · rw [← hsame]
    exact h.known
  · have hshort : (kept ++ gap.filterMap id ++ r :: rest).Nodup := by
      refine List.Nodup.sublist ?_ h.nodup
      apply List.Sublist.append_right
      apply List.Sublist.append_left
      exact (List.sublist_cons_self slot gap).filterMap id
    have hperm : (kept ++ [r] ++ (gap ++ [none]).filterMap id ++ rest).Perm
        (kept ++ gap.filterMap id ++ r :: rest) := by
      have hnone : (gap ++ [none]).filterMap id = gap.filterMap id := by simp
      rw [hnone,List.append_assoc,List.append_assoc,List.append_assoc]
      apply List.Perm.append_left
      show (r :: (gap.filterMap id ++ rest)).Perm (gap.filterMap id ++ r :: rest)
      exact List.perm_middle.symm
    exact hperm.nodup_iff.mpr hshort
  · intro q hq
    rcases List.mem_append.mp hq with hq | hq
    · exact h.ready q (List.mem_cons_of_mem _ hq)
    · cases List.mem_singleton.mp hq

theorem Divided.erase {s : Client} {kept : List Nat} {gap : List (Option Nat)} (h : Divided s kept gap []) :
    Divided { s with futures := s.futures.take kept.length, pc := .whileTest } kept [] [] := by
  refine ⟨?_,rfl,h.order,h.known,?_,nofun⟩
  · show s.futures.take kept.length = _
    rw [h.futures,scan_erase]
  · have hn := h.nodup
    rw [List.append_nil] at hn
    rw [List.append_nil,List.filterMap_nil,List.append_nil]
    exact hn.of_append_left

theorem Divided.completes {s : Client} {kept unseen : List Nat} {gap : List (Option Nat)}
    (h : Divided s kept gap unseen) (r : Nat) :
    Divided { s with complete := Function.update s.complete r true } kept gap unseen := by
  have hmono : ∀ q, s.complete q = true → Function.update s.complete r true q = true := by
    intro q hq
    by_cases hqr : q = r
    · rw [hqr,Function.update_self]
    · rw [Function.update_of_ne hqr,hq]
  have hplace := h.place
  refine ⟨h.futures,?_,h.order,h.known,h.nodup,fun q hq => hmono q (h.ready q hq)⟩
  show s.pc.Divides (Function.update s.complete r true) kept gap unseen
  cases hpc : s.pc with
  | waitFor it
  | returned =>
    rw [hpc] at hplace
    exact ⟨hplace.1,hplace.2.1,fun q hq => hmono q (hplace.2.2 q hq)⟩
  | _ =>
    rw [hpc] at hplace
    exact hplace

theorem Divided.step {total perSecond : Nat} {s t : Client} {kept unseen : List Nat}
    {gap : List (Option Nat)} (h : Divided s kept gap unseen) (hcount : Counted total s)
    (hs : Effect total perSecond s t) : ∃ kept gap unseen, Divided t kept gap unseen := by
  have hplace := h.place
  cases hs with
  | push i hpc => exact ⟨_,_,_,h.push hcount hpc⟩
  | complete r hr hc => exact ⟨_,_,_,h.completes r⟩
  | leave hpc hc =>
    rw [hpc] at hplace
    exact ⟨[],[],_,h.resplit hplace (List.nil_append _) ⟨rfl,rfl,nofun⟩⟩
  | enter hpc hc
  | again i hpc hi hc
  | batch i hpc hi
  | increment i hpc =>
    rw [hpc] at hplace
    exact ⟨_,_,_,h.goto rfl rfl rfl rfl hplace⟩
  | sleep hpc =>
    rw [hpc] at hplace
    exact ⟨[],[],_,h.resplit hplace (List.nil_append _) ⟨rfl,rfl⟩⟩
  | pass it r hpc hr hc =>
    rw [hpc] at hplace
    obtain ⟨rfl,rfl⟩ := hplace
    obtain ⟨rest,rfl⟩ := h.at rfl hr
    refine ⟨kept ++ [r],[],rest,h.resplit rfl (by simp) ⟨rfl,by simp⟩⟩
  | found it r hpc hr hc =>
    rw [hpc] at hplace
    obtain ⟨rfl,rfl⟩ := hplace
    obtain ⟨rest,rfl⟩ := h.at rfl hr
    exact ⟨_,_,_,h.drop hc ⟨nofun,rfl,rfl⟩⟩
  | foundNone it hpc hr =>
    rw [hpc] at hplace
    obtain ⟨rfl,rfl⟩ := hplace
    have hend := h.at_end rfl hr
    exact ⟨_,_,_,h.goto rfl rfl rfl rfl ⟨hend,rfl⟩⟩
  | skip result it r hpc hr hc =>
    rw [hpc] at hplace
    obtain ⟨hne,rfl,rfl⟩ := hplace
    obtain ⟨rest,rfl⟩ := h.at rfl hr
    refine ⟨_,_,_,h.drop hc ⟨by simp,rfl,?_⟩⟩
    rw [List.length_append]
    rfl
  | move result it r hpc hr hc =>
    rw [hpc] at hplace
    obtain ⟨hne,rfl,rfl⟩ := hplace
    obtain ⟨rest,rfl⟩ := h.at rfl hr
    cases gap with
    | nil => exact absurd rfl hne
    | cons slot gap =>
      refine ⟨_,_,_,h.move ⟨by simp,by simp,?_⟩⟩
      simp
      omega
  | scanned result it hpc hr =>
    rw [hpc] at hplace
    obtain ⟨hne,rfl,rfl⟩ := hplace
    have hend := h.at_end rfl hr
    exact ⟨_,_,_,h.goto rfl rfl rfl rfl ⟨hend,rfl⟩⟩
  | erase result hpc =>
    rw [hpc] at hplace
    obtain ⟨rfl,rfl⟩ := hplace
    exact ⟨_,_,_,h.erase⟩
  | waited it r hpc hr hc =>
    rw [hpc] at hplace
    obtain ⟨rfl,rfl,hall⟩ := hplace
    obtain ⟨rest,rfl⟩ := h.at rfl hr
    refine ⟨kept ++ [r],[],rest,h.resplit rfl (by simp) ⟨rfl,by simp,?_⟩⟩
    intro q hq
    rcases List.mem_append.mp hq with hq | hq
    · exact hall q hq
    · rw [List.mem_singleton.mp hq]
      exact hc
  | returns it hpc hr =>
    rw [hpc] at hplace
    obtain ⟨rfl,rfl,hall⟩ := hplace
    have hend := h.at_end rfl hr
    exact ⟨_,_,_,h.goto rfl rfl rfl rfl ⟨rfl,hend,hall⟩⟩

theorem reachable_counted {total perSecond : Nat} {s : Client} (h : (system total perSecond).Reachable s) :
    Counted total s := by
  refine System.invariant (P := Counted total) ?_ ?_ h
  · intro s hs
    obtain rfl : s = {} := hs
    exact ⟨rfl,Nat.zero_le total,nofun,nofun⟩
  · intro s a t _ hinv ht
    exact hinv.step (step_effect total perSecond ht)

theorem reachable_divided {total perSecond : Nat} {s : Client} (h : (system total perSecond).Reachable s) :
    ∃ kept gap unseen, Divided s kept gap unseen := by
  refine System.invariant (P := fun s => ∃ kept gap unseen, Divided s kept gap unseen) ?_ ?_ h
  · intro s hs
    obtain rfl : s = {} := hs
    exact ⟨[],[],[],rfl,rfl,.slnil,nofun,List.nodup_nil,nofun⟩
  · intro s a t hr hinv ht
    obtain ⟨kept,gap,unseen,hd⟩ := hinv
    exact hd.step (reachable_counted hr) (step_effect total perSecond ht)

private theorem filter_of_sublist {p : Nat → Bool} {xs ys : List Nat} (hs : xs.Sublist ys) (hn : ys.Nodup)
    (hin : ∀ x ∈ ys, p x = true → x ∈ xs) : xs.filter p = ys.filter p := by
  apply (hs.filter p).eq_of_length_le
  apply List.Subperm.length_le
  apply (hn.filter p).subperm
  intro x hx
  obtain ⟨hx,hp⟩ := List.mem_filter.mp hx
  exact List.mem_filter.mpr ⟨hin x hx hp,hp⟩

theorem Divided.running {total : Nat} {s : Client} {kept unseen : List Nat} {gap : List (Option Nat)}
    (h : Divided s kept gap unseen) (hcount : Counted total s) :
    (s.futures.filterMap id).filter (fun r => !s.complete r) = s.started.filter fun r => !s.complete r := by
  have hgap : (gap.filterMap id).filter (fun r => !s.complete r) = [] := by
    apply List.filter_eq_nil_iff.mpr
    intro r hr
    obtain ⟨slot,hslot,hid⟩ := List.mem_filterMap.mp hr
    obtain rfl : slot = some r := hid
    simp [h.ready r hslot]
  have hnodup : s.started.Nodup := by
    rw [hcount.started]
    exact List.nodup_range
  have hkept : (kept ++ unseen).filter (fun r => !s.complete r) = s.started.filter fun r => !s.complete r := by
    apply filter_of_sublist h.order hnodup
    intro r hr hc
    rcases h.known r hr with hin | hpolled
    · exact hin
    · simp [hcount.polled r hpolled] at hc
  rw [h.futures,scan_elements,List.filter_append,List.filter_append,hgap,List.append_nil,← List.filter_append,
    hkept]

theorem Divided.returned {total : Nat} {s : Client} {kept unseen : List Nat} {gap : List (Option Nat)}
    (h : Divided s kept gap unseen) (hcount : Counted total s) (hpc : s.pc = .returned) :
    s.started = List.range total ∧ ∀ r < total, s.complete r = true := by
  have hplace := h.place
  have hcounter := hcount.counter
  have hstarted := hcount.started
  rw [hpc] at hplace hcounter hstarted
  obtain ⟨rfl,rfl,hall⟩ := hplace
  have htotal : s.started = List.range total := by
    rw [hstarted]
    exact congrArg List.range hcounter
  refine ⟨htotal,?_⟩
  intro r hr
  have hmem : r ∈ s.started := by
    rw [htotal]
    exact List.mem_range.mpr hr
  rcases h.known r hmem with hin | hpolled
  · rw [List.append_nil] at hin
    exact hall r hin
  · exact hcount.polled r hpolled

end MyCpp.LoadGenerator
