import MyCpp.ListDemo.ListRefinement

/-! The shape of every reachable list of ListDemo.c, stated on the heap and its two global
pointers alone, and what it gives for the calls: they end and touch live nodes only. -/
namespace MyCpp.ListDemo
open PointerHeap LinkedSegment TransitionSystem

/-- `chain` is the list from head along next; read backwards it is the list from
currentNode along prev, and nothing on it leads to a node that is not live. -/
structure WellFormed (s : ListState) (chain : List Addr) : Prop where
  next_chain : Walk s.heap Cell.next s.head chain
  prev_chain : Walk s.heap Cell.prev s.currentNode chain.reverse
  nodup : chain.Nodup
  ends : chain.head? = s.head ∧ chain.getLast? = s.currentNode
  head_prev : ∃ a n, s.head = some a ∧ s.heap a = some n ∧ n.prev = none
  tail_next : ∃ a n, s.currentNode = some a ∧ s.heap a = some n ∧ n.next = none
  live : ∀ a ∈ chain, ∃ n, s.heap a = some n
  no_dangling : ∀ a, s.heap a = none → s.head ≠ some a ∧ s.currentNode ≠ some a ∧
    ∀ b ∈ chain, ∀ n, s.heap b = some n → n.prev ≠ some a ∧ n.next ≠ some a

private theorem Represents.live {s : ListState} {hd : Addr} {xs : List (Addr × Int32)}
    (h : Represents s hd xs) {a : Addr} (ha : a ∈ ((hd,-1) :: xs).map Prod.fst) :
    ∃ n, s.heap a = some n := by
  obtain ⟨⟨b,d⟩,hb,rfl⟩ := List.mem_map.mp ha
  obtain ⟨n,hn,_⟩ := h.segment.live hb
  exact ⟨n,hn⟩

private theorem Represents.no_dangling {s : ListState} {hd : Addr} {xs : List (Addr × Int32)}
    (h : Represents s hd xs) {a : Addr} (ha : s.heap a = none) :
    s.head ≠ some a ∧ s.currentNode ≠ some a ∧
    ∀ b ∈ ((hd,-1) :: xs).map Prod.fst, ∀ n, s.heap b = some n →
      n.prev ≠ some a ∧ n.next ≠ some a := by
  have hout : a ∉ ((hd,-1) :: xs).map Prod.fst := by
    intro hm
    obtain ⟨n,hn⟩ := h.live hm
    simp [ha] at hn
  have leads {p : Option Addr} (hp : p = none ∨ ∃ b ∈ ((hd,-1) :: xs).map Prod.fst, p = some b) :
      p ≠ some a := by
    rcases hp with rfl | ⟨b,hb,rfl⟩
    · exact nofun
    · intro he
      cases he
      exact hout hb
  obtain ⟨ys,c,d,he,hcur,_,_⟩ := h.split
  refine ⟨leads (.inr ⟨hd,by simp,h.head⟩),leads (.inr ⟨c,?_,hcur⟩),fun b hb n hn => ?_⟩
  · rw [he]
    simp
  · obtain ⟨hp,hx⟩ := h.segment.links hb hn
    exact ⟨leads hp,leads hx⟩

theorem Represents.wellFormed {s : ListState} {hd : Addr} {xs : List (Addr × Int32)}
    (h : Represents s hd xs) : WellFormed s (((hd,-1) :: xs).map Prod.fst) := by
  obtain ⟨ys,c,d,he,hcur,hc,_⟩ := h.split
  refine ⟨?_,?_,h.nodup,⟨h.head.symm,?_⟩,⟨hd,_,h.head,h.segment.1,rfl⟩,⟨c,_,hcur,hc,rfl⟩,
    fun a ha => h.live ha,fun a ha => h.no_dangling ha⟩
  · rw [h.head]
    exact h.segment.walk_next
  · rw [h.tail]
    exact h.segment.walk_prev
  · rw [he,hcur]
    simp

theorem Represents.search_hit {s : ListState} {hd : Addr} {xs : List (Addr × Int32)}
    (h : Represents s hd xs) {value : Int32} {fuel : Nat} {a : Addr}
    (hs : ListDemo.search fuel value s = .ok (some a)) :
    s.head ≠ some a ∧ ∃ n, s.heap a = some n ∧ n.prev ≠ none := by
  have hover : ListDemo.search fuel value s ≠ .error .stillRunning := by simp [hs]
  rcases h.search_cases hover with hn | ⟨l,b,r,rfl,hb⟩
  · simp [hs] at hn
  rw [hs] at hb
  cases hb
  refine ⟨?_,?_⟩
  · rw [h.head]
    rintro ⟨⟩
    have hnd := h.nodup
    simp at hnd
  · obtain ⟨ys,⟨b,e⟩,he⟩ := List.eq_nil_or_concat' ((hd,(-1 : Int32)) :: l) |>.resolve_left (by simp)
    have hseg := h.segment
    rw [← List.cons_append,he] at hseg
    obtain ⟨_,ha,_⟩ := segment_append.mp hseg
    exact ⟨_,ha,by simp⟩

/-- Every reachable list is well formed; from it the loops of search and printList end,
search misses the sentinel, and insert and deleteNode run without a fault. -/
theorem list_stays_well_formed {s : ListState} (h : system.Reachable s) :
    (∃ chain, WellFormed s chain) ∧
    (∀ v, ∃ N r, ∀ fuel, N ≤ fuel → search fuel v s = .ok r) ∧
    (∃ N out, ∀ fuel, N ≤ fuel → printList fuel s = .ok out) ∧
    (∀ fuel v a, search fuel v s = .ok (some a) →
      s.head ≠ some a ∧ ∃ n, s.heap a = some n ∧ n.prev ≠ none) ∧
    (∀ a garbage v, s.heap a = none → ∃ t, insert a garbage v s = .ok t) ∧
    (∀ v, ∃ N t, ∀ fuel, N ≤ fuel → deleteNode fuel v s = .ok t) ∧
    ∀ fuel v e, deleteNode fuel v s = .error e → e = .stillRunning := by
  obtain ⟨hd,xs,hrep⟩ := reachable_represents h
  refine ⟨⟨_,hrep.wellFormed⟩,?_,?_,fun fuel v a hs => hrep.search_hit hs,?_,?_,?_⟩
  · exact fun v => ⟨_,_,fun fuel hf => hrep.search v hf⟩
  · exact ⟨_,_,fun fuel hf => hrep.printList hf⟩
  · intro a garbage v ha
    obtain ⟨t,ht,_⟩ := insert_represents hrep ha garbage v
    exact ⟨t,ht⟩
  · intro v
    have hs := hrep.search v (Nat.le_refl _)
    have hover : search (xs.length + 2) v s ≠ .error .stillRunning := by simp [hs]
    obtain ⟨t,_,ht,_⟩ := hrep.deleteNode hover
    refine ⟨xs.length + 2,t,fun fuel hf => ?_⟩
    rw [← ht,deleteNode,deleteNode,hs,hrep.search v hf]
  · intro fuel v e he
    by_cases hs : search fuel v s = .error .stillRunning
    · rw [deleteNode,hs] at he
      cases he
      rfl
    · obtain ⟨t,_,ht,_⟩ := hrep.deleteNode hs
      rw [ht] at he
      cases he

theorem list_stays_well_formed_sample : ∃ s, builtList sampleCalls = some s ∧ system.Reachable s ∧
    search 4 5 s = .ok (some 2) ∧ s.head ≠ some 2 ∧
    (∃ t, insert 4 staleNode 6 s = .ok t) ∧
    deleteNode 0 5 s = .error .stillRunning ∧ ∃ chain, WellFormed s chain := by
  obtain ⟨s,hs,hfree,_⟩ := sampleList_built
  have hr := builtList_reachable hs
  obtain ⟨hwf,_,_,hhit,hins,_,hsafe⟩ := list_stays_well_formed hr
  have hfound : search 4 5 s = .ok (some 2) := by
    cases hs
    rfl
  exact ⟨s,hs,hr,hfound,(hhit 4 5 2 hfound).1,hins 4 staleNode 6 hfree,rfl,hwf⟩

end MyCpp.ListDemo
