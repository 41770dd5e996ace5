import MyCpp.ListDemo.ListRefinement

/-! insert followed by deleteNode of the same value is the identity on the heap and the two
global pointers, except for the value of the sentinel, which search never returns. -/
namespace MyCpp.ListDemo
open PointerHeap LinkedSegment TransitionSystem

theorem Represents.search_inserted {s : ListState} {hd a : Addr} {xs : List (Addr × Int32)} {value : Int32}
    (h : Represents s hd (xs ++ [(a,value)])) (hv : value ≠ -1) {fuel : Nat} (hf : xs.length + 3 ≤ fuel) :
    ListDemo.search fuel value s = .ok (some a) := by
  rw [h.search value (by simpa using hf),← List.cons_append,findLast_concat,if_pos ⟨hv,rfl⟩]

theorem deleteNode_inserted {s t : ListState} {hd a : Addr} {xs : List (Addr × Int32)} {garbage : Node}
    {value : Int32} {fuel : Nat} (h : Represents s hd xs) (ha : s.heap a = none)
    (ht : insert a garbage value s = .ok t) (hs : search fuel value t = .ok (some a)) :
    deleteNode fuel value t = .ok s := by
  obtain ⟨ys,c,d,_,hcur,hc,_⟩ := h.split
  have hca : c ≠ a := by
    rintro rfl
    simp [ha] at hc
  rw [insert_eq hcur hc hca] at ht
  cases ht
  have hc' (x y : Option Node) : Function.update (Function.update s.heap c x) a y c = x := by
    rw [Function.update_of_ne hca,Function.update_self]
  rw [deleteNode_last hs (Function.update_self ..) (hc' _ _) rfl rfl hca.symm,Heap.update_restores hc ha hca]
  cases s
  cases hcur
  rfl

/-- For every reachable list: a value other than -1 is found at the new tail and its
deletion gives back every field of the heap and both pointers; a node with -1 stays. -/
theorem insert_undone {s : ListState} (h : system.Reachable s) (a : Addr) (garbage : Node) (v : Int32)
    (ha : s.heap a = none) :
    ∃ t N, insert a garbage v s = .ok t ∧ t.currentNode = some a ∧ ∀ fuel, N ≤ fuel →
      (v ≠ -1 → search fuel v t = .ok (some a) ∧ deleteNode fuel v t = .ok s) ∧
      (v = -1 → search fuel v t = .ok none ∧ deleteNode fuel v t = .ok t) := by
  obtain ⟨hd,xs,hrep⟩ := reachable_represents h
  obtain ⟨t,ht,hrep'⟩ := insert_represents hrep ha garbage v
  refine ⟨t,xs.length + 3,ht,?_,fun fuel hf => ⟨?_,?_⟩⟩
  · rw [hrep'.tail,← List.cons_append,last_concat]
  · intro hv
    have hs := hrep'.search_inserted hv hf
    exact ⟨hs,deleteNode_inserted hrep ha ht hs⟩
  · rintro rfl
    have hlen : (xs ++ [(a,(-1 : Int32))]).length + 2 ≤ fuel := by simpa using hf
    have hs := hrep'.search_sentinel hlen
    exact ⟨hs,deleteNode_miss hs⟩

/-- A third 5 behind the two of the sample list. -/
theorem insert_undone_sample : ∃ s t N, builtList sampleCalls = some s ∧ system.Reachable s ∧
    insert 4 staleNode 5 s = .ok t ∧ search N 5 t = .ok (some 4) ∧ deleteNode N 5 t = .ok s := by
  obtain ⟨s,hs,hfree,_⟩ := sampleList_built
  have hr := builtList_reachable hs
  obtain ⟨t,N,ht,_,hcalls⟩ := insert_undone hr 4 staleNode 5 hfree
  obtain ⟨hfound,hback⟩ := (hcalls N (Nat.le_refl N)).1 (by decide)
  exact ⟨s,t,N,hs,hr,ht,hfound,hback⟩

/-- A -1 inserted into the fresh list is not found, whatever the iterations, and stays. -/
theorem inserted_sentinel_stays : ∃ s t, builtList [] = some s ∧ system.Reachable s ∧
    s.heap 2 = none ∧ insert 2 staleNode (-1) s = .ok t ∧
    (∀ fuel, search fuel (-1) t ≠ .ok (some 2)) ∧ ∀ fuel, deleteNode fuel (-1) t ≠ .ok s := by
  refine ⟨_,_,rfl,@builtList_reachable [] _ rfl,rfl,rfl,fun fuel => ?_,fun fuel => ?_⟩
  · rcases fuel with _ | _ | _ | fuel
    all_goals
      intro hs
      cases hs
  · rcases fuel with _ | _ | _ | fuel
    all_goals
      intro hs
      cases congrArg (Except.map ListState.currentNode) hs

end MyCpp.ListDemo
