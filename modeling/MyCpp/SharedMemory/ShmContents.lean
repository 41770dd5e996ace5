import Mathlib.Data.List.TakeWhile
import Mathlib.Data.List.Induction
import MyCpp.SharedMemory.ShmCalls

/-! What a reader finds after a history of writes. A write copies the characters of its
string but not the terminating NUL, so the tail of a longer earlier string stays. -/
namespace MyCpp.SharedMemory
open TransitionSystem ErrorCheckMutex

/-- The segment after writes that did not overlap. -/
def stored (segment : Nat → UInt8) (ws : List (List UInt8)) : Nat → UInt8 :=
  ws.foldl (fun segment w => (Call.write w).segmentAfter segment (strlen w)) segment

/-- Whole writes, each by some thread, one after the other. -/
def writeActions (ws : List (Nat × List UInt8)) : List Action :=
  ws.flatMap fun w => callActions w.1 (.write w.2)

theorem strlen_eq {w : List UInt8} (h : 0 ∉ w) : strlen w = w.length := by
  have hall : w.takeWhile (· ≠ 0) = w := by
    apply List.takeWhile_eq_self_iff.mpr
    intro x hx
    apply decide_eq_true
    intro he
    exact h (he ▸ hx)
  rw [strlen,hall]

theorem writes_run (process : Nat → Nat) (ws : List (Nat × List UInt8)) (segment : Nat → UInt8)
    (returned : List Returned) :
    ∃ later, (system process).run { segment := segment, returned := returned } (writeActions ws) =
      some { segment := stored segment (ws.map Prod.snd), returned := later } := by
  induction ws generalizing segment returned with
  | nil => exact ⟨returned,rfl⟩
  | cons w ws ih =>
    have hw := call_alone process (s := { segment := segment, returned := returned }) (t := w.1) rfl rfl
      (.write w.2) rfl
    have hfree : Function.update (fun _ : Nat => (none : Option Nat)) (process w.1) (unlock w.1 (some w.1)) =
        fun _ => none := by
      rw [unlock_own]
      exact Function.update_eq_self (process w.1) _
    rw [afterCall,hfree] at hw
    obtain ⟨later,hlater⟩ := ih _ _
    refine ⟨later,?_⟩
    rw [writeActions,List.flatMap_cons,System.run_append,hw,Option.bind_some]
    exact hlater

/-- The last write covers its own characters and nothing else. -/
theorem stored_append (segment : Nat → UInt8) (ws : List (List UInt8)) {w : List UInt8} (hw : 0 ∉ w) (i : Nat) :
    stored segment (ws ++ [w]) i = if i < w.length then w[i]?.getD 0 else stored segment ws i := by
  rw [stored,List.foldl_append,List.foldl_cons,List.foldl_nil,strlen_eq hw]
  rfl

theorem stored_eq_zero_iff {segment : Nat → UInt8} {i : Nat} (h0 : segment i = 0)
    {ws : List (List UInt8)} (hw : ∀ w ∈ ws, 0 ∉ w) :
    stored segment ws i = 0 ↔ ∀ w ∈ ws, w.length ≤ i := by
  induction ws using List.reverseRecOn with
  | nil => simp [stored,h0]
  | append_singleton ws w ih =>
    rw [List.forall_mem_append] at hw
    have hlast : 0 ∉ w := hw.2 w List.mem_cons_self
    rw [stored_append segment ws hlast,List.forall_mem_append,List.forall_mem_singleton]
    by_cases hi : i < w.length
    · have hne : w[i] ≠ 0 := by
        intro he
        exact hlast (he ▸ List.getElem_mem hi)
      rw [if_pos hi,List.getElem?_eq_getElem hi,Option.getD_some]
      constructor
      · intro he
        exact absurd he hne
      · intro hall
        exact absurd hi (Nat.not_lt_of_le hall.2)
    · rw [if_neg hi,ih hw.1]
      constructor
      · intro hall
        exact ⟨hall,Nat.le_of_not_lt hi⟩
      · intro hall
        exact hall.1

private theorem bytes_split {f : Nat → UInt8} {w : List UInt8} {len : Nat} (hlen : w.length < len)
    (hf : ∀ i (hi : i < w.length), f i = w[i]) :
    ∃ rest, (List.range len).map f = w ++ f w.length :: rest := by
  obtain ⟨k,rfl⟩ := Nat.exists_eq_add_of_lt hlen
  have hstart : (List.range w.length).map f = w := by
    apply List.ext_getElem
    · simp
    · intro i hi hi'
      rw [List.getElem_map,List.getElem_range,hf]
  rw [Nat.add_assoc,List.range_add,List.map_append,hstart,List.range_succ_eq_map]
  exact ⟨_,rfl⟩

/-- A buffer that starts with the characters of a string holds it as a C string when the
next byte is zero. -/
theorem cString_eq_iff {f : Nat → UInt8} {w : List UInt8} {len : Nat} (hw : 0 ∉ w) (hlen : w.length < len)
    (hf : ∀ i (hi : i < w.length), f i = w[i]) :
    cString ((List.range len).map f) = w ↔ f w.length = 0 := by
  obtain ⟨rest,hsplit⟩ := bytes_split hlen hf
  have hchars : ∀ x ∈ w, decide (x ≠ 0) = true := by
    intro x hx
    apply decide_eq_true
    intro he
    exact hw (he ▸ hx)
  rw [cString,hsplit,List.takeWhile_append_of_pos hchars,List.takeWhile_cons]
  by_cases h0 : f w.length = 0
  · simp [h0]
  · simp [h0]

/-- After any history of writes to a segment that was zero, with `w` the last string: the
reader gets `w` exactly when no earlier string was longer. -/
theorem reader_sees_last_write_iff (process : Nat → Nat) (segment : Nat → UInt8)
    (hzero : ∀ i < segmentSize, segment i = 0) (earlier : List (Nat × List UInt8)) (writer : Nat)
    (w : List UInt8) (reader len : Nat) (hmax : len ≤ segmentSize)
    (hnul : ∀ x ∈ earlier ++ [(writer,w)], 0 ∉ x.2)
    (hlen : ∀ x ∈ earlier ++ [(writer,w)], x.2.length < len) :
    ∃ s dataOut, (system process).run { segment := segment }
        (writeActions (earlier ++ [(writer,w)]) ++ callActions reader (.read len)) = some s ∧
      s.returned.getLast? = some ⟨reader,.read len,dataOut⟩ ∧
      (cString dataOut = w ↔ ∀ x ∈ earlier, x.2.length ≤ w.length) := by
  have hw : 0 ∉ w := hnul (writer,w) (by simp)
  have hwlen : w.length < len := hlen (writer,w) (by simp)
  obtain ⟨returned,hwrites⟩ := writes_run process (earlier ++ [(writer,w)]) segment []
  rw [List.map_append,List.map_singleton] at hwrites
  let written : Shm := { segment := stored segment (earlier.map Prod.snd ++ [w]), returned := returned }
  have hread := call_alone process (s := written) (t := reader) rfl rfl (.read len) (lock_own reader)
  refine ⟨afterCall process written reader (.read len) (some reader),
    (List.range len).map written.segment,?_,List.getLast?_concat,?_⟩
  · rw [System.run_append,hwrites,Option.bind_some]
    exact hread
  · have hbytes : ∀ i (hi : i < w.length), stored segment (earlier.map Prod.snd ++ [w]) i = w[i] := by
      intro i hi
      rw [stored_append _ _ hw,if_pos hi,List.getElem?_eq_getElem hi,Option.getD_some]
    have hend : segment w.length = 0 := hzero _ (Nat.lt_of_lt_of_le hwlen hmax)
    have hearlier : ∀ x ∈ earlier.map Prod.snd, 0 ∉ x := by
      intro x hx
      obtain ⟨y,hy,rfl⟩ := List.mem_map.mp hx
      exact hnul y (List.mem_append_left _ hy)
    rw [cString_eq_iff hw hwlen hbytes,stored_append _ _ hw,if_neg (Nat.lt_irrefl _),
      stored_eq_zero_iff hend hearlier,List.forall_mem_map]

/-- Two strings of one length. -/
theorem reader_sees_last_write_iff_xyz :
    ∃ s dataOut, (system id).run { segment := fun _ => 0 }
        (writeActions [(0,[97,98,99]),(0,[120,121,122])] ++ callActions 1 (.read 4)) = some s ∧
      s.returned.getLast? = some ⟨1,.read 4,dataOut⟩ ∧ cString dataOut = [120,121,122] := by
  obtain ⟨s,dataOut,hrun,hlast,hiff⟩ := reader_sees_last_write_iff id (fun _ => 0)
    (fun _ _ => rfl) [(0,[97,98,99])] 0 [120,121,122] 1 4 (by decide) (by decide) (by decide)
  exact ⟨s,dataOut,hrun,hlast,hiff.mpr (by decide)⟩

/-- The string "abc" and then "x": the reader gets "xbc". -/
theorem reader_sees_stale_tail :
    ∃ s dataOut, (system id).run { segment := fun _ => 0 }
        (writeActions [(0,[97,98,99]),(0,[120])] ++ callActions 1 (.read 4)) = some s ∧
      s.returned.getLast? = some ⟨1,.read 4,dataOut⟩ ∧ cString dataOut = [120,98,99] ∧
      cString dataOut ≠ [120] :=
  ⟨_,_,rfl,rfl,by decide,by decide⟩

end MyCpp.SharedMemory
