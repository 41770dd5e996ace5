import Mathlib.Data.List.Basic

/-! The array of std::remove_if in the middle of its scan: elements kept and moved to the
front, slots that were moved from or whose element is to go, and elements not yet seen. -/
namespace MyCpp.RemoveScan
variable {α : Type*}

/-- The slots; a slot that was moved from is `none`. -/
def scan (kept : List α) (gap : List (Option α)) (unseen : List α) : List (Option α) :=
  kept.map some ++ gap ++ unseen.map some

theorem scan_length (kept : List α) (gap : List (Option α)) (unseen : List α) :
    (scan kept gap unseen).length = kept.length + gap.length + unseen.length := by
  rw [scan,List.length_append,List.length_append,List.length_map,List.length_map]

theorem scan_next (kept : List α) (gap : List (Option α)) (x : α) (unseen : List α) :
    (scan kept gap (x :: unseen))[kept.length + gap.length]? = some (some x) := by
  have hlen : (kept.map some ++ gap).length = kept.length + gap.length := by simp
  rw [scan,List.getElem?_append_right (Nat.le_of_eq hlen),hlen,Nat.sub_self]
  rfl

theorem scan_skip (kept : List α) (gap : List (Option α)) (x : α) (unseen : List α) :
    scan kept gap (x :: unseen) = scan kept (gap ++ [some x]) unseen := by
  simp [scan]

/-- An element moved to the first slot of the gap. -/
theorem scan_move (kept : List α) (slot : Option α) (gap : List (Option α)) (x : α) (unseen : List α) :
    ((scan kept (slot :: gap) (x :: unseen)).set kept.length (some x)).set
      (kept.length + (slot :: gap).length) none = scan (kept ++ [x]) (gap ++ [none]) unseen := by
  have hfirst : (scan kept (slot :: gap) (x :: unseen)).set kept.length (some x) =
      (kept.map some ++ some x :: gap) ++ some x :: unseen.map some := by
    rw [scan,List.append_assoc,List.set_append_right _ _ (by simp)]
    simp
  have hlen : (kept.map some ++ some x :: gap).length = kept.length + (slot :: gap).length := by simp
  rw [hfirst,List.set_append_right _ _ (Nat.le_of_eq hlen),hlen,Nat.sub_self]
  simp [scan]

theorem scan_erase (kept : List α) (gap : List (Option α)) :
    (scan kept gap []).take kept.length = scan kept [] [] := by
  simp [scan]

theorem scan_elements (kept : List α) (gap : List (Option α)) (unseen : List α) :
    (scan kept gap unseen).filterMap id = kept ++ gap.filterMap id ++ unseen := by
  simp [scan,List.filterMap_map]

end MyCpp.RemoveScan
