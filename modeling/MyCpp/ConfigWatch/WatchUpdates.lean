import MyCpp.ConfigWatch.ConfigModel

/-! No update of the file is lost while the comparisons succeed: every write leaves an
event, and an event is only consumed by a load. An exception in a comparison breaks it. -/
namespace MyCpp.ConfigWatch
open TransitionSystem

/-- Keys can be followed through a document: each of them is asked of an object, until
one is absent or null. -/
def Followable : Json → List String → Prop
  | _, [] => True
  | d, key :: keys => ∃ members, d = .obj members ∧
    ∀ v, members.lookup key = some v → v = .null ∨ Followable v keys

/-- Every watched path can be followed. -/
def Comparable (d : Json) : Prop := ∀ path ∈ watchedPaths, Followable d (pathKeys path)

theorem followKeys_obj (members : List (String × Json)) (key : String) (keys : List String) :
    followKeys (.obj members) (key :: keys) = match (members.lookup key).getD .null with
      | .null => .ok .null
      | value => followKeys value keys := by
  rw [followKeys]
  rfl

/-- Exactly the documents that can be followed raise no exception. -/
theorem followKeys_ok_iff {d : Json} {keys : List String} :
    (∃ v, followKeys d keys = .ok v) ↔ Followable d keys := by
  induction keys generalizing d with
  | nil => exact ⟨fun _ => trivial,fun _ => ⟨d,rfl⟩⟩
  | cons key keys ih =>
    cases d with
    | obj members =>
      rw [followKeys_obj,Followable]
      cases hv : members.lookup key with
      | none => simp [hv]
      | some v =>
        by_cases hn : v = .null
        · subst hn
          simp [hv]
        · have hgo : (match (some v).getD .null with
              | .null => Except.ok .null
              | value => followKeys value keys) = followKeys v keys := by
            cases v with
            | null => exact absurd rfl hn
            | _ => rfl
          rw [hgo,ih]
          simp [hv,hn]
    | _ => simp [followKeys,Json.get,bind,Except.bind,Followable]

theorem compareLoop_ok_iff {last cur : Json} {paths : List String} :
    (∃ changes, compareLoop last cur paths = .ok changes) ↔
      ∀ path ∈ paths, Followable last (pathKeys path) ∧ Followable cur (pathKeys path) := by
  induction paths with
  | nil => simp [compareLoop]
  | cons path paths ih =>
    rw [List.forall_mem_cons,← ih,← followKeys_ok_iff,← followKeys_ok_iff,compareLoop,getValueFromPath,
      getValueFromPath]
    cases followKeys last (pathKeys path) with
    | error e => simp [bind,Except.bind]
    | ok old =>
      cases followKeys cur (pathKeys path) with
      | error e => simp [bind,Except.bind]
      | ok new => cases compareLoop last cur paths <;> simp [bind,Except.bind]

theorem checkForChanges_later {last : Json} (h : last ≠ .null) (cur : Json) :
    checkForChanges last cur = (compareLoop last cur watchedPaths).map fun changes => (changes,cur) := by
  have hmap : checkForChanges last cur = compareLoop last cur watchedPaths >>= fun changes =>
      .ok (changes,cur) := by
    cases last with
    | null => exact absurd rfl h
    | _ => rfl
  rw [hmap]
  cases compareLoop last cur watchedPaths <;> rfl

/-- A comparison raises no exception on its first call, and on two documents in which the
watched paths can be followed. -/
theorem checkForChanges_ok_iff {last cur : Json} :
    (∃ r, checkForChanges last cur = .ok r) ↔ last = .null ∨ Comparable last ∧ Comparable cur := by
  by_cases h : last = .null
  · subst h
    exact ⟨fun _ => .inl rfl,fun _ => ⟨([],cur),rfl⟩⟩
  · have hloop : (∃ changes, compareLoop last cur watchedPaths = .ok changes) ↔
        Comparable last ∧ Comparable cur := by
      rw [compareLoop_ok_iff,Comparable,Comparable,← forall₂_and]
    rw [checkForChanges_later h,← hloop]
    cases compareLoop last cur watchedPaths <;> simp [h,Except.map]

theorem checkForChanges_stores {last cur stored : Json} {changes : List Change}
    (h : checkForChanges last cur = .ok (changes,stored)) : stored = cur := by
  by_cases hl : last = .null
  · subst hl
    cases h
    rfl
  · rw [checkForChanges_later hl] at h
    cases hc : compareLoop last cur watchedPaths with
    | error e => simp [hc,Except.map] at h
    | ok c =>
      simp only [hc,Except.map,Except.ok.injEq,Prod.mk.injEq] at h
      exact h.2.symm

/-- A load is the next thing the watcher does. -/
def Pc.Loading : Pc → Prop
  | .pollLoad => True
  | .events (_ + 1) => True
  | _ => False

/-- The condition on a step: a load finds nothing stored yet, or two documents in which
the watched paths can be followed. -/
def Sound (s : Watcher) : Action → Prop
  | .write _ _ _ => True
  | .watch => s.pc.Loading → s.lastConfig = .null ∨ Comparable s.lastConfig ∧ Comparable s.content

theorem loadAndCheck_sound {s : Watcher}
    (h : s.lastConfig = .null ∨ Comparable s.lastConfig ∧ Comparable s.content) (next : Pc) :
    ∃ changes, loadAndCheck next s = { s with
      lastConfig := s.content, loaded := true, reports := s.reports ++ changes, pc := next } := by
  obtain ⟨⟨changes,stored⟩,hr⟩ := checkForChanges_ok_iff.mpr h
  obtain rfl := checkForChanges_stores hr
  exact ⟨changes,by rw [loadAndCheck,hr]⟩

/-- What the file holds has been stored, or an event is still to be loaded; and the
watcher is alive. -/
structure Informed (s : Watcher) : Prop where
  alive : ∀ e, s.pc ≠ .aborted e
  pending : s.loaded = true → s.lastConfig ≠ s.content → 0 < s.queued ∨ ∃ n, s.pc = .events (n+1)

theorem Informed.write {s : Watcher} (h : Informed s) (content : Json) (mtime : Int) (merged : Bool) :
    Informed (write content mtime merged s) := by
  have hw : ConfigWatch.write content mtime merged s = { s with
      content := content
      mtime := mtime
      queued := if merged ∧ 0 < s.queued then s.queued else s.queued + 1 } := by
    obtain ⟨_,_,_,pc,_,_,_,_⟩ := s
    cases pc with
    | aborted e => exact absurd rfl (h.alive e)
    | _ => rfl
  rw [hw]
  refine ⟨h.alive,fun _ _ => .inl ?_⟩
  show 0 < if merged ∧ 0 < s.queued then s.queued else s.queued + 1
  split
  · rename_i hm
    exact hm.2
  · exact Nat.succ_pos _

theorem Informed.load {s : Watcher}
    (hs : s.lastConfig = .null ∨ Comparable s.lastConfig ∧ Comparable s.content) {next : Pc}
    (hnext : ∀ e, next ≠ .aborted e) : Informed (loadAndCheck next s) := by
  obtain ⟨changes,hl⟩ := loadAndCheck_sound hs next
  rw [hl]
  exact ⟨hnext,fun _ hne => absurd rfl hne⟩

/-- Without a drained event a missing update is in the queue. -/
theorem Informed.queued {s : Watcher} (h : Informed s) (hpc : ∀ n, s.pc ≠ .events (n+1))
    (hl : s.loaded = true) (hne : s.lastConfig ≠ s.content) : 0 < s.queued := by
  rcases h.pending hl hne with hq | ⟨n,hn⟩
  · exact hq
  · exact absurd hn (hpc n)

theorem Informed.watch {s t : Watcher} (h : Informed s) (hs : Sound s .watch) (ht : watch s = some t) :
    Informed t := by
  obtain ⟨content,mtime,queued,pc,lastConfig,lastMtime,loaded,reports⟩ := s
  cases pc with
  | getmtime =>
    cases ht
    exact ⟨nofun,fun hl hne => .inl (h.queued nofun hl hne)⟩
  | testMtime currentMtime =>
    rw [ConfigWatch.watch] at ht
    dsimp only at ht
    split at ht
    · cases ht
      exact ⟨nofun,fun hl hne => .inl (h.queued nofun hl hne)⟩
    · cases ht
      exact ⟨nofun,fun hl hne => .inl (h.queued nofun hl hne)⟩
  | pollLoad =>
    cases ht
    exact Informed.load (hs trivial) nofun
  | readEvents =>
    cases ht
    refine ⟨nofun,fun hl hne => .inr ?_⟩
    obtain ⟨n,hn⟩ := Nat.exists_eq_succ_of_ne_zero (Nat.ne_of_gt (h.queued nofun hl hne))
    exact ⟨n,congrArg Pc.events hn⟩
  | events pending =>
    cases pending with
    | zero =>
      cases ht
      exact ⟨nofun,fun hl hne => .inl (h.queued nofun hl hne)⟩
    | succ n =>
      cases ht
      exact Informed.load (hs trivial) nofun
  | aborted e => cases ht

theorem reachable_informed {s : Watcher} (h : system.ReachableUnder Sound s) : Informed s := by
  refine System.invariant_under (S := system) (P := Informed) ?_ ?_ h
  · intro s hs
    obtain ⟨content,mtime,rfl⟩ := hs
    exact ⟨nofun,nofun⟩
  · intro s a t _ hok hinf ht
    cases a with
    | write content mtime merged =>
      cases ht
      exact hinf.write content mtime merged
    | watch => exact hinf.watch hok ht

/-- In every run whose loads compare documents that can be followed, after the first load:
a difference between the stored and the current document is still to be noticed, and
without anything pending there is none. -/
theorem watcher_misses_no_update {s : Watcher} (h : system.ReachableUnder Sound s)
    (hl : s.loaded = true) :
    (s.lastConfig ≠ s.content → 0 < s.queued ∨ (∃ n, s.pc = .events (n+1)) ∨ s.pc = .pollLoad) ∧
    (s.queued = 0 → ¬ s.pc.Loading → s.lastConfig = s.content) := by
  have hinf := reachable_informed h
  refine ⟨fun hne => ?_,fun hq hload => ?_⟩
  · rcases hinf.pending hl hne with hq | hn
    · exact .inl hq
    · exact .inr (.inl hn)
  · by_contra hne
    rcases hinf.pending hl hne with hq' | ⟨n,hn⟩
    · exact absurd hq (Nat.ne_of_gt hq')
    · rw [hn] at hload
      exact hload trivial

/-- A configuration whose nested entry is a string. -/
def flatConfig (value : String) : Json := .obj [("key1",.str value),("nested",.str "off")]

/-- The first pass of the loop loads a configuration. -/
def firstLoad (content : Json) : Watcher :=
  { content := content, mtime := 0, pc := .readEvents
    lastConfig := content, lastMtime := some 0, loaded := true }

theorem firstLoad_reachable (content : Json) : system.ReachableUnder Sound (firstLoad content) := by
  have h0 : system.ReachableUnder Sound { content := content, mtime := 0 } := .init ⟨content,0,rfl⟩
  have h1 := h0.step Action.watch (fun h => h.elim) rfl
  have h2 := h1.step Action.watch (fun h => h.elim) rfl
  exact h2.step Action.watch (fun _ => .inl rfl) rfl

theorem watcher_misses_no_update_written :
    (firstLoad (flatConfig "10")).lastConfig = (firstLoad (flatConfig "10")).content ∧
    ∃ s, system.ReachableUnder Sound s ∧ s.loaded = true ∧ s.lastConfig ≠ s.content ∧
      (0 < s.queued ∨ (∃ n, s.pc = .events (n+1)) ∨ s.pc = .pollLoad) := by
  have hr := firstLoad_reachable (flatConfig "10")
  refine ⟨(watcher_misses_no_update hr rfl).2 rfl id,?_⟩
  have hw := hr.step (Action.write (flatConfig "11") 0 false) trivial rfl
  have hne : flatConfig "10" ≠ flatConfig "11" := by simp [flatConfig]
  exact ⟨_,hw,rfl,hne,(watcher_misses_no_update hw rfl).1 hne⟩

/-- One change of key1 while nested is a string. -/
def abortingRun : List Action :=
  [.watch,.watch,.watch,.write (flatConfig "11") 1 false,.watch,.watch]

/-- The comparison raises before the new document is stored, and nothing is pending. -/
def abortedWatcher : Watcher where
  content := flatConfig "11"
  mtime := 1
  pc := .aborted ⟨"'str' object has no attribute 'get'"⟩
  lastConfig := flatConfig "10"
  lastMtime := some 0
  loaded := true

theorem watcher_aborts_before_update :
    system.run { content := flatConfig "10", mtime := 0 } abortingRun = some abortedWatcher ∧
    system.Reachable abortedWatcher ∧ abortedWatcher.loaded = true ∧
    abortedWatcher.lastConfig ≠ abortedWatcher.content ∧
    ¬ (0 < abortedWatcher.queued ∨ (∃ n, abortedWatcher.pc = .events (n+1)) ∨
      abortedWatcher.pc = .pollLoad) := by
  have hrun : system.run { content := flatConfig "10", mtime := 0 } abortingRun = some abortedWatcher := rfl
  refine ⟨hrun,.run (.init ⟨flatConfig "10",0,rfl⟩) _ hrun,rfl,?_,?_⟩
  · simp [abortedWatcher,flatConfig]
  · simp [abortedWatcher]

end MyCpp.ConfigWatch
