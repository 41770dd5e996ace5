import MyCpp.ConfigWatch.PyEquality
import MyCpp.ConfigWatch.WatchUpdates
import MyCpp.Library.ObservationLog

/-! The reports of check_for_changes over a whole history of configurations: for each
watched path they are the change log of its values. -/
namespace MyCpp.ConfigWatch
open UniqueKeys ObservationLog

/-- A configuration of the watched form, as json.load returns it. -/
structure Config where
  data : Json
  unique : data.UniqueKeys
  comparable : Comparable data

/-- check_for_changes called on one configuration after the other: all reports, and the
configuration stored in the end. -/
def checkEach (lastConfig : Json) : List Json → Except AttributeError (List Change × Json)
  | [] => .ok ([],lastConfig)
  | currentConfig :: configs => do
    let (changes,lastConfig) ← checkForChanges lastConfig currentConfig
    let (later,lastConfig) ← checkEach lastConfig configs
    .ok (changes ++ later,lastConfig)

/-- The value under a path, None where the lookup raises. -/
def valueAt (data : Json) (path : String) : Json :=
  match getValueFromPath data path with
  | .ok value => value
  | .error _ => .null

theorem followKeys_unique {d v : Json} {keys : List String} (h : d.UniqueKeys)
    (hv : followKeys d keys = .ok v) : v.UniqueKeys := by
  induction keys generalizing d with
  | nil =>
    cases hv
    exact h
  | cons key keys ih =>
    cases h with
    | @obj members hk hm =>
      rw [followKeys_obj] at hv
      cases hl : members.lookup key with
      | none =>
        rw [hl] at hv
        cases hv
        exact .null
      | some w =>
        rw [hl] at hv
        have hw : w.UniqueKeys := hm _ (mem_of_lookup hl)
        cases w with
        | null =>
          cases hv
          exact .null
        | _ => exact ih hw hv
    | _ => cases hv

theorem Config.value_ok (c : Config) {path : String} (hp : path ∈ watchedPaths) :
    getValueFromPath c.data path = .ok (valueAt c.data path) := by
  obtain ⟨v,hv⟩ := followKeys_ok_iff.mpr (c.comparable path hp)
  rw [valueAt,getValueFromPath,hv]

theorem Config.value_unique (c : Config) {path : String} (hp : path ∈ watchedPaths) :
    (valueAt c.data path).UniqueKeys :=
  followKeys_unique c.unique (c.value_ok hp)

/-- The reports of one comparison, path by path. -/
def changesOn (last cur : Json) (paths : List String) : List Change :=
  paths.filterMap fun path =>
    if pyEq (valueAt last path) (valueAt cur path) then none
    else some ⟨path,valueAt last path,valueAt cur path⟩

theorem compareLoop_eq {last cur : Json} {paths : List String}
    (h : ∀ path ∈ paths, getValueFromPath last path = .ok (valueAt last path) ∧
      getValueFromPath cur path = .ok (valueAt cur path)) :
    compareLoop last cur paths = .ok (changesOn last cur paths) := by
  induction paths with
  | nil => rfl
  | cons path paths ih =>
    rw [List.forall_mem_cons] at h
    rw [compareLoop,h.1.1,h.1.2,ih h.2]
    simp only [bind,Except.bind,changesOn,List.filterMap_cons]
    split <;> rfl

theorem Config.check_eq (c d : Config) :
    checkForChanges c.data d.data = .ok (changesOn c.data d.data watchedPaths,d.data) := by
  have hne : c.data ≠ .null := by
    intro hn
    obtain ⟨members,hm,_⟩ := c.comparable "key1" List.mem_cons_self
    rw [hn] at hm
    cases hm
  rw [checkForChanges_later hne,compareLoop_eq]
  · rfl
  · intro path hp
    exact ⟨c.value_ok hp,d.value_ok hp⟩

/-- The reports on two configurations. -/
def Config.diff (c d : Config) : List Change := changesOn c.data d.data watchedPaths

theorem checkEach_later (c : Config) (cs : List Config) :
    checkEach c.data (cs.map Config.data) = .ok (log Config.diff c cs,(cs.getLastD c).data) := by
  induction cs generalizing c with
  | nil => rfl
  | cons d ds ih =>
    rw [List.map_cons,checkEach,c.check_eq d]
    simp only [bind,Except.bind]
    rw [ih d,List.getLastD_cons]
    rfl

theorem checkEach_eq (c : Config) (cs : List Config) :
    checkEach .null ((c :: cs).map Config.data) = .ok (log Config.diff c cs,(cs.getLastD c).data) := by
  rw [List.map_cons,checkEach]
  simp only [checkForChanges,bind,Except.bind]
  rw [checkEach_later]
  rfl

def Change.on (path : String) (r : Change) : Option (Json × Json) :=
  if r.path = path then some (r.old,r.new) else none

private theorem filterMap_one {ν : Type} {paths : List String} (hn : paths.Nodup) {path : String}
    (hp : path ∈ paths) (value : Option ν) :
    paths.filterMap (fun q => if q = path then value else none) = value.toList := by
  induction paths with
  | nil => cases hp
  | cons q paths ih =>
    rw [List.nodup_cons] at hn
    by_cases hq : q = path
    · subst hq
      have hrest : paths.filterMap (fun r => if r = q then value else none) = [] := by
        apply List.filterMap_eq_nil_iff.mpr
        intro r hr
        apply if_neg
        intro he
        exact hn.1 (he ▸ hr)
      rw [List.filterMap_cons,if_pos rfl,hrest]
      cases value <;> rfl
    · rw [List.filterMap_cons,if_neg hq]
      apply ih hn.2
      cases hp with
      | head => exact absurd rfl hq
      | tail _ hp => exact hp

/-- Among paths that differ, one comparison reports each at most once. -/
theorem changesOn_on {last cur : Json} {paths : List String} (hn : paths.Nodup) {path : String}
    (hp : path ∈ paths) :
    (changesOn last cur paths).filterMap (Change.on path) =
      changed pyEq (valueAt last path) (valueAt cur path) := by
  have hone : (changesOn last cur paths).filterMap (Change.on path) = paths.filterMap fun q =>
      if q = path then if pyEq (valueAt last path) (valueAt cur path) then none
        else some (valueAt last path,valueAt cur path) else none := by
    rw [changesOn,List.filterMap_filterMap]
    apply List.filterMap_congr
    intro q _
    by_cases hq : q = path
    · subst hq
      cases pyEq (valueAt last q) (valueAt cur q) <;> simp [Change.on]
    · cases pyEq (valueAt last q) (valueAt cur q) <;> simp [Change.on,hq]
  rw [hone,filterMap_one hn hp,changed]
  cases pyEq (valueAt last path) (valueAt cur path) <;> rfl

theorem pyEq_equivalenceOn : EquivalenceOn pyEq Json.UniqueKeys where
  refl := Json.UniqueKeys.refl
  symm := Json.UniqueKeys.symm
  trans hx _ _ := hx.trans

/-- The reports on a path are the change log of its values. -/
theorem reports_on {path : String} (hp : path ∈ watchedPaths) (c : Config) (cs : List Config) :
    (log Config.diff c cs).filterMap (Change.on path) =
      log (changed pyEq) (valueAt c.data path) (cs.map fun d => valueAt d.data path) := by
  have hn : watchedPaths.Nodup := by decide
  rw [log_filterMap,← log_map (fun d : Config => valueAt d.data path)]
  congr
  funext c d
  exact changesOn_on hn hp

theorem Config.diff_self (c : Config) : c.diff c = [] := by
  apply List.filterMap_eq_nil_iff.mpr
  intro path hp
  exact if_pos (c.value_unique hp).refl

/-- An object whose nested entry, if it has one, is null or an object has the watched form. -/
theorem comparable_obj {members : List (String × Json)}
    (h : ∀ v, members.lookup "nested" = some v → v = .null ∨ ∃ ms, v = .obj ms) : Comparable (.obj members) := by
  have hpaths : watchedPaths.map pathKeys = [["key1"],["nested","key2"]] := by decide
  intro path hp
  have hk := List.mem_map_of_mem (f := pathKeys) hp
  rw [hpaths] at hk
  simp only [List.mem_cons,List.not_mem_nil,or_false] at hk
  rcases hk with hk | hk
  · rw [hk]
    exact ⟨_,rfl,fun v _ => .inr trivial⟩
  · rw [hk]
    refine ⟨_,rfl,fun v hv => ?_⟩
    rcases h v hv with rfl | ⟨ms,rfl⟩
    · exact .inl rfl
    · exact .inr ⟨ms,rfl,fun v _ => .inr trivial⟩

/-- A configuration with a number under both paths. -/
def numbers (key1 key2 : Int) : Config where
  data := .obj [("key1",.int key1),("nested",.obj [("key2",.int key2)])]
  unique := by
    refine .obj ?_ ?_
    · simp
    · simp only [List.forall_mem_cons]
      refine ⟨.int key1,.obj ?_ ?_,nofun⟩
      · simp
      · simp only [List.forall_mem_cons]
        exact ⟨.int key2,nofun⟩
  comparable := by
    apply comparable_obj
    intro v hv
    cases hv
    exact .inr ⟨_,rfl⟩

end MyCpp.ConfigWatch
