import MyCpp.ListDemo.ListRepresentation

/-! ListDemo.c refines a plain sequence. The abstract state is what the heap shows from the
node after head along next; the operations are stated on it alone. -/
namespace MyCpp.ListDemo
open PointerHeap LinkedSegment TransitionSystem

/-- The address and data pairs from the node after head to the tail. -/
def Contents (s : ListState) (xs : List (Addr × Int32)) : Prop :=
  ∃ hd n, s.head = some hd ∧ s.heap hd = some n ∧ Reads s.heap n.next xs

theorem Represents.contents {s : ListState} {hd : Addr} {xs : List (Addr × Int32)}
    (h : Represents s hd xs) : Contents s xs :=
  ⟨hd,_,h.head,h.segment.1,h.segment.2.reads⟩

theorem Contents.unique {s : ListState} {xs ys : List (Addr × Int32)} (hx : Contents s xs)
    (hy : Contents s ys) : xs = ys := by
  obtain ⟨a,n,ha,hn,hx⟩ := hx
  obtain ⟨b,m,hb,hm,hy⟩ := hy
  rw [ha] at hb
  cases hb
  rw [hn] at hm
  cases hm
  exact hx.unique hy

/-- The simulation: the initial list shows the empty sequence, and from every reachable
list each call has its effect on the sequence, given the iterations for one pass. -/
theorem list_refines_sequence :
    (∀ s, system.init s → Contents s []) ∧
    ∀ s, system.Reachable s → ∃ xs, Contents s xs ∧ (∀ ys, Contents s ys → ys = xs) ∧
      (∀ a garbage v, s.heap a = none →
        ∃ t, insert a garbage v s = .ok t ∧ Contents t (xs ++ [(a,v)])) ∧
      ∀ fuel, xs.length + 2 ≤ fuel →
        (∀ v, v ≠ -1 →
          (v ∉ xs.map Prod.snd ∧ search fuel v s = .ok none ∧ deleteNode fuel v s = .ok s) ∨
          ∃ l a r, xs = l ++ (a,v) :: r ∧ v ∉ r.map Prod.snd ∧
            search fuel v s = .ok (some a) ∧
            ∃ t, deleteNode fuel v s = .ok t ∧ Contents t (l ++ r)) ∧
        (search fuel (-1) s = .ok none ∧ deleteNode fuel (-1) s = .ok s) ∧
        printList fuel s = .ok
          (((xs.reverse.filter fun p => p.2 ≠ -1).map fun p => dataLine p.2) ++ [ruleLine]) := by
  refine ⟨?_,fun s h => ?_⟩
  · rintro s ⟨a,garbage,hs⟩
    exact (initilizeList_represents hs).contents
  obtain ⟨hd,xs,hrep⟩ := reachable_represents h
  refine ⟨xs,hrep.contents,fun ys hy => hy.unique hrep.contents,?_,fun fuel hf => ⟨?_,?_,?_⟩⟩
  · intro a garbage v ha
    obtain ⟨t,ht,hrep'⟩ := insert_represents hrep ha garbage v
    exact ⟨t,ht,hrep'.contents⟩
  · intro v hv
    have hs := hrep.search v hf
    rcases findLast_cases hd xs v with ⟨hn,hc⟩ | ⟨l,a,r,rfl,_,hr,ha⟩
    · rw [hn] at hs
      exact .inl ⟨hc.resolve_left hv,hs,deleteNode_miss hs⟩
    · rw [ha] at hs
      obtain ⟨t,ht,hrep'⟩ := deleteNode_represents hrep hs
      exact .inr ⟨l,a,r,rfl,hr,hs,t,ht,hrep'.contents⟩
  · have hs := hrep.search_sentinel hf
    exact ⟨hs,deleteNode_miss hs⟩
  · rw [hrep.printList hf,printed,List.reverse_cons,List.filter_append,List.map_append]
    simp

def staleNode : Node := ⟨77,some 3,none⟩

def builtList (calls : List Call) : Option ListState :=
  (initilizeList 1 staleNode {}).toOption.bind fun s => system.run s calls

theorem builtList_reachable {calls : List Call} {s : ListState} (h : builtList calls = some s) :
    system.Reachable s := by
  obtain ⟨t,ht,hs⟩ := Option.bind_eq_some_iff.mp h
  refine .run (.init ⟨1,staleNode,?_⟩) calls hs
  cases ha : initilizeList 1 staleNode {} with
  | error e => simp [ha,Except.toOption] at ht
  | ok u => simpa [ha,Except.toOption] using ht

/-- Two insertions, a deletion in the middle and an insertion that reuses its address. -/
def sampleCalls : List Call :=
  [.insert 2 staleNode 4,.insert 3 staleNode 5,.deleteNode 9 4,.insert 2 staleNode 5]

theorem sampleList_built : ∃ s, builtList sampleCalls = some s ∧ s.heap 4 = none ∧
    Contents s [(3,5),(2,5)] :=
  ⟨_,rfl,rfl,1,_,rfl,rfl,rfl,_,rfl,rfl,rfl,_,rfl,rfl,rfl⟩

theorem list_refines_sequence_sample : ∃ s, builtList sampleCalls = some s ∧ system.Reachable s ∧
    Contents s [(3,5),(2,5)] ∧
    (∃ t, insert 4 staleNode 6 s = .ok t ∧ Contents t [(3,5),(2,5),(4,6)]) ∧
    (∃ l a r, [(3,5),(2,5)] = l ++ (a,5) :: r ∧ 5 ∉ r.map Prod.snd ∧ search 4 5 s = .ok (some a) ∧
      ∃ t, deleteNode 4 5 s = .ok t ∧ Contents t (l ++ r)) ∧
    printList 4 s = .ok [dataLine 5,dataLine 5,ruleLine] := by
  obtain ⟨s,hs,hfree,hc⟩ := sampleList_built
  have hr := builtList_reachable hs
  obtain ⟨xs,hxs,huniq,hins,hcalls⟩ := list_refines_sequence.2 s hr
  obtain rfl := huniq _ hc
  obtain ⟨hval,_,hprint⟩ := hcalls 4 (by decide)
  have hdel := (hval 5 (by decide)).resolve_left fun hn => hn.1 (by decide)
  exact ⟨s,hs,hr,hc,hins 4 staleNode 6 hfree,hdel,hprint⟩

end MyCpp.ListDemo
