import MyCpp.ConfigWatch.ChangeReports

/-! A path names at most one place in a document. get_value_from_path finds it as long as
only absence and null end the way early; any other value that is no object raises. -/
namespace MyCpp.ConfigWatch

/-- What a document has at a path of keys, each followed through an object. -/
def Json.atKeys : Json → List String → Option Json
  | d, [] => some d
  | .obj members, key :: keys => (members.lookup key).bind fun v => v.atKeys keys
  | _, _ :: _ => none

/-- Where it raises nothing, the loop returns what is at the path, and None for absence. -/
theorem followKeys_atKeys {d : Json} {keys : List String} (h : Followable d keys) :
    followKeys d keys = .ok ((d.atKeys keys).getD .null) := by
  induction keys generalizing d with
  | nil =>
    rw [Json.atKeys]
    rfl
  | cons key keys ih =>
    obtain ⟨members,rfl,hnext⟩ := h
    rw [followKeys_obj,Json.atKeys]
    cases hv : members.lookup key with
    | none => rfl
    | some v =>
      rw [Option.bind_some,Option.getD_some]
      cases v with
      | null => cases keys <;> rfl
      | _ => exact ih ((hnext _ hv).resolve_left (by simp))

theorem getValueFromPath_iff (d : Json) (path : String) :
    getValueFromPath d path = .ok ((d.atKeys (pathKeys path)).getD .null) ↔ Followable d (pathKeys path) :=
  ⟨fun h => followKeys_ok_iff.mp ⟨_,h⟩,followKeys_atKeys⟩

/-- Two documents that check_for_changes compares, the earlier one stored: None counts as
no configuration. -/
def Checkable (last current : Json) : Prop := last = .null ∨ Comparable last ∧ Comparable current

theorem checkEach_ok_iff {last : Json} {configs : List Json} :
    (∃ r, checkEach last configs = .ok r) ↔ List.IsChain Checkable (last :: configs) := by
  induction configs generalizing last with
  | nil => exact ⟨fun _ => .singleton _,fun _ => ⟨_,rfl⟩⟩
  | cons current configs ih =>
    rw [List.isChain_cons_cons,Checkable,← checkForChanges_ok_iff,← ih,checkEach]
    cases hc : checkForChanges last current with
    | error e => simp [bind,Except.bind]
    | ok r =>
      obtain ⟨changes,stored⟩ := r
      obtain rfl := checkForChanges_stores hc
      cases hl : checkEach stored configs <;> simp [hl,bind,Except.bind]

/-- For every document and path: the lookup returns what is at the path, or None for its
absence, exactly when every key is asked of an object until one is absent or null. For
every sequence of documents: no call raises exactly when of any two in a row the first is
null, or both can be followed along the watched paths. -/
theorem lookup_total_iff (d : Json) (path : String) (configs : List Json) :
    (getValueFromPath d path = .ok ((d.atKeys (pathKeys path)).getD .null) ↔ Followable d (pathKeys path)) ∧
    ((∃ r, checkEach .null configs = .ok r) ↔ List.IsChain Checkable (.null :: configs)) :=
  ⟨getValueFromPath_iff d path,checkEach_ok_iff⟩

/-- The string under nested is asked for key2. -/
theorem lookup_raises_on_string :
    ((flatConfig "10").atKeys (pathKeys "nested.key2")).getD .null = .null ∧
    getValueFromPath (flatConfig "10") "nested.key2" = .error ⟨"'str' object has no attribute 'get'"⟩ ∧
    checkEach .null [flatConfig "10",flatConfig "11"] = .error ⟨"'str' object has no attribute 'get'"⟩ :=
  ⟨rfl,rfl,rfl⟩

end MyCpp.ConfigWatch
