import MyCpp.ListDemo.ListModel

/-! The list of ListDemo.c represents a sequence of address and value pairs behind its
sentinel. Each operation is specified once, on the represented sequence. -/
namespace MyCpp.ListDemo
open PointerHeap LinkedSegment TransitionSystem

/-- The sentinel at `hd` followed by the cells of `xs`, linked both ways, with the global
tail pointer at the last of them. -/
structure Represents (s : ListState) (hd : Addr) (xs : List (Addr × Int32)) : Prop where
  head : s.head = some hd
  segment : Segment s.heap none ((hd,-1) :: xs) none
  nodup : (((hd,-1) :: xs).map Prod.fst).Nodup
  tail : s.currentNode = last none ((hd,-1) :: xs)

theorem initilizeList_eq (a : Addr) (garbage : Node) (s : ListState) :
    initilizeList a garbage s = .ok
      { heap := Function.update s.heap a (some ⟨-1,none,none⟩), head := some a, currentNode := some a } := by
  simp only [initilizeList,bind,Except.bind,Heap.malloc,Heap.modify_live (Function.update_self ..),
    Function.update_idem,setCurrentNode]

theorem initilizeList_represents {a : Addr} {garbage : Node} {s t : ListState}
    (h : initilizeList a garbage s = .ok t) : Represents t a [] := by
  rw [initilizeList_eq] at h
  cases h
  exact ⟨rfl,⟨Function.update_self ..,trivial⟩,by simp,rfl⟩

theorem Represents.split {s : ListState} {hd : Addr} {xs : List (Addr × Int32)}
    (h : Represents s hd xs) : ∃ ys c d, (hd,-1) :: xs = ys ++ [(c,d)] ∧ s.currentNode = some c ∧
      s.heap c = some ⟨d,last none ys,none⟩ ∧ c ∉ ys.map Prod.fst := by
  obtain ⟨ys,⟨c,d⟩,he⟩ := List.eq_nil_or_concat' ((hd,(-1 : Int32)) :: xs) |>.resolve_left (by simp)
  obtain ⟨_,hseg,hnd,htail⟩ := h
  rw [he] at hseg hnd htail
  obtain ⟨hc,_⟩ := (segment_append.mp hseg).2
  refine ⟨ys,c,d,he,by rw [htail,last_concat],hc,?_⟩
  rw [List.map_append,List.nodup_append] at hnd
  exact fun hm => hnd.2.2 c hm c (by simp) rfl

/-- insert writes the old tail's next field and the four fields of the new node. -/
theorem insert_eq {s : ListState} {a c : Addr} {n : Node} (hcur : s.currentNode = some c)
    (hc : s.heap c = some n) (hac : c ≠ a) (garbage : Node) (value : Int32) :
    insert a garbage value s = .ok { s with
      heap := Function.update (Function.update s.heap c (some { n with next := some a }))
        a (some ⟨value,some c,none⟩)
      currentNode := some a } := by
  have hc' : s.heap.malloc a garbage c = some n := by
    rw [Heap.malloc,Function.update_of_ne hac,hc]
  have ha' (m : Option Node) :
      Function.update (s.heap.malloc a garbage) c m a = some garbage := by
    rw [Function.update_of_ne hac.symm,Heap.malloc,Function.update_self]
  simp only [insert,bind,Except.bind,getCurrentNode,hcur,Heap.modify_live hc',Heap.modify_live (ha' _),
    Heap.modify_live (Function.update_self ..),setCurrentNode,Function.update_idem]
  rw [Heap.malloc,Function.update_comm hac.symm,Function.update_idem]

theorem insert_represents {s : ListState} {hd : Addr} {xs : List (Addr × Int32)}
    (h : Represents s hd xs) {a : Addr} (ha : s.heap a = none) (garbage : Node) (value : Int32) :
    ∃ t, insert a garbage value s = .ok t ∧ Represents t hd (xs ++ [(a,value)]) := by
  obtain ⟨ys,c,d,he,hcur,hc,hcys⟩ := h.split
  have hfresh : a ∉ ((hd,-1) :: xs).map Prod.fst := by
    intro hm
    obtain ⟨⟨b,e⟩,hb,rfl⟩ := List.mem_map.mp hm
    obtain ⟨n,hn,_⟩ := h.segment.live hb
    simp [ha] at hn
  have hac : c ≠ a := by
    rintro rfl
    simp [ha] at hc
  refine ⟨_,insert_eq hcur hc hac garbage value,h.head,?_,?_,?_⟩
  · have hseg := h.segment
    rw [he] at hseg hfresh
    rw [← List.cons_append,he]
    exact hseg.link hcys hfresh
  · rw [← List.cons_append,List.map_append,List.nodup_append]
    refine ⟨h.nodup,by simp,?_⟩
    intro x hx y hy
    obtain rfl : y = a := by simpa using hy
    rintro rfl
    exact hfresh hx
  · rw [← List.cons_append,last_concat]

/-- The address search looks for: the last pair with the value, unless it is -1. -/
def findLast (value : Int32) (nodes : List (Addr × Int32)) : Option Addr :=
  (nodes.reverse.find? fun p => p.2 ≠ -1 ∧ p.2 = value).map Prod.fst

theorem findLast_concat (value : Int32) (nodes : List (Addr × Int32)) (a : Addr) (d : Int32) :
    findLast value (nodes ++ [(a,d)]) =
      if d ≠ -1 ∧ d = value then some a else findLast value nodes := by
  rw [findLast,List.reverse_append,List.reverse_singleton,List.singleton_append,List.find?_cons]
  by_cases hv : d ≠ -1 ∧ d = value
  · rw [if_pos hv,decide_eq_true hv]
    rfl
  · rw [if_neg hv,decide_eq_false hv]
    rfl

/-- The loop of search from the end of a segment, one iteration for each node. -/
theorem searchFrom_segment {h : Heap Addr Node} {nodes : List (Addr × Int32)} {n : Option Addr}
    (hs : Segment h none nodes n) (value : Int32) (extra : Nat) :
    searchFrom h value (nodes.length + 1 + extra) (last none nodes) = .ok (findLast value nodes) := by
  induction nodes using List.reverseRecOn generalizing n with
  | nil =>
    rw [List.length_nil,Nat.add_right_comm]
    rfl
  | append_singleton nodes x ih =>
    obtain ⟨a,d⟩ := x
    obtain ⟨hl,ha,_⟩ := segment_append.mp hs
    rw [List.length_append,List.length_singleton,Nat.add_right_comm _ 1 extra,last_concat,searchFrom,
      Heap.load_live ha,findLast_concat]
    simp only [bind,Except.bind,ih hl]
    split <;> rfl

/-- What printList writes for a segment, from its end to its start. -/
def printed (nodes : List (Addr × Int32)) : List String :=
  ((nodes.reverse.filter fun p => p.2 ≠ -1).map fun p => dataLine p.2) ++ [ruleLine]

theorem printFrom_segment {h : Heap Addr Node} {nodes : List (Addr × Int32)} {n : Option Addr}
    (hs : Segment h none nodes n) (extra : Nat) :
    printFrom h (nodes.length + 1 + extra) (last none nodes) = .ok (printed nodes) := by
  induction nodes using List.reverseRecOn generalizing n with
  | nil =>
    rw [List.length_nil,Nat.add_right_comm]
    rfl
  | append_singleton nodes x ih =>
    obtain ⟨a,d⟩ := x
    obtain ⟨hl,ha,_⟩ := segment_append.mp hs
    rw [List.length_append,List.length_singleton,Nat.add_right_comm _ 1 extra,last_concat,printFrom,
      Heap.load_live ha]
    simp only [bind,Except.bind,ih hl]
    by_cases hd : d = -1
    · simp [printed,hd]
    · simp [printed,hd]

theorem Represents.search {s : ListState} {hd : Addr} {xs : List (Addr × Int32)}
    (h : Represents s hd xs) (value : Int32) {fuel : Nat} (hf : xs.length + 2 ≤ fuel) :
    search fuel value s = .ok (findLast value ((hd,-1) :: xs)) := by
  obtain ⟨extra,rfl⟩ := Nat.exists_eq_add_of_le hf
  rw [ListDemo.search,getCurrentNode,h.tail]
  exact searchFrom_segment h.segment value extra

theorem Represents.printList {s : ListState} {hd : Addr} {xs : List (Addr × Int32)}
    (h : Represents s hd xs) {fuel : Nat} (hf : xs.length + 2 ≤ fuel) :
    printList fuel s = .ok (printed ((hd,-1) :: xs)) := by
  obtain ⟨extra,rfl⟩ := Nat.exists_eq_add_of_le hf
  rw [ListDemo.printList,getCurrentNode,h.tail]
  exact printFrom_segment h.segment extra

/-- The sentinel carries -1, which search skips: a hit is a proper node with nothing of
that value behind it, and a miss means the value is absent. -/
theorem findLast_cases (hd : Addr) (xs : List (Addr × Int32)) (value : Int32) :
    (findLast value ((hd,-1) :: xs) = none ∧ (value = -1 ∨ value ∉ xs.map Prod.snd)) ∨
    ∃ l a r, xs = l ++ (a,value) :: r ∧ value ≠ -1 ∧ value ∉ r.map Prod.snd ∧
      findLast value ((hd,-1) :: xs) = some a := by
  induction xs using List.reverseRecOn with
  | nil =>
    refine .inl ⟨?_,by simp⟩
    rw [← List.nil_append [(hd,(-1 : Int32))],findLast_concat]
    simp [findLast]
  | append_singleton xs x ih =>
    obtain ⟨b,d⟩ := x
    rw [← List.cons_append,findLast_concat]
    by_cases hv : d ≠ -1 ∧ d = value
    · obtain ⟨hne,rfl⟩ := hv
      exact .inr ⟨xs,b,[],rfl,hne,by simp,by simp [hne]⟩
    · rw [if_neg hv]
      have hd' (hne : value ≠ -1) : d ≠ value := by
        rintro rfl
        exact hv ⟨hne,rfl⟩
      rcases ih with ⟨hn,hc⟩ | ⟨l,a,r,rfl,hne,hr,ha⟩
      · refine .inl ⟨hn,?_⟩
        by_cases hne : value = -1
        · exact .inl hne
        · refine .inr ?_
          simpa using ⟨fun y hy => hc.resolve_left hne (List.mem_map.mpr ⟨_,hy,rfl⟩),(hd' hne).symm⟩
      · refine .inr ⟨l,a,r ++ [(b,d)],by simp,hne,?_,ha⟩
        simpa using ⟨fun y hy => hr (List.mem_map.mpr ⟨_,hy,rfl⟩),(hd' hne).symm⟩

theorem Represents.search_sentinel {s : ListState} {hd : Addr} {xs : List (Addr × Int32)}
    (h : Represents s hd xs) {fuel : Nat} (hf : xs.length + 2 ≤ fuel) :
    ListDemo.search fuel (-1) s = .ok none := by
  rw [h.search (-1) hf]
  rcases findLast_cases hd xs (-1) with ⟨hn,_⟩ | ⟨_,_,_,_,hne,_⟩
  · rw [hn]
  · exact absurd rfl hne

/-- deleteNode on the last node: the predecessor becomes the tail. -/
theorem deleteNode_last {s : ListState} {fuel : Nat} {value : Int32} {a b : Addr} {n m : Node}
    (hsearch : search fuel value s = .ok (some a)) (ha : s.heap a = some n) (hb : s.heap b = some m)
    (hp : n.prev = some b) (hn : n.next = none) (hab : a ≠ b) :
    deleteNode fuel value s = .ok { s with
      heap := Function.update (Function.update s.heap b (some { m with next := none })) a none
      currentNode := some b } := by
  have ha' (c : Option Node) : Function.update s.heap b c a = some n := by
    rw [Function.update_of_ne hab,ha]
  simp [deleteNode,unlinkNode,hsearch,Heap.load_live ha,hp,hn,bind,Except.bind,Heap.modify_live hb,
    setCurrentNode,Heap.free_live (ha' _)]

/-- deleteNode on an inner node: both neighbours are relinked and the tail stays. -/
private theorem deleteNode_inner {s : ListState} {fuel : Nat} {value : Int32} {a b c : Addr}
    {n m k : Node} (hsearch : search fuel value s = .ok (some a)) (ha : s.heap a = some n)
    (hb : s.heap b = some m) (hc : s.heap c = some k) (hp : n.prev = some b) (hn : n.next = some c)
    (hab : a ≠ b) (hac : a ≠ c) (hbc : b ≠ c) :
    deleteNode fuel value s = .ok { s with
      heap := Function.update (Function.update (Function.update s.heap
        b (some { m with next := some c })) c (some { k with prev := some b })) a none } := by
  have hc' (x : Option Node) : Function.update s.heap b x c = some k := by
    rw [Function.update_of_ne hbc.symm,hc]
  have ha' (x y : Option Node) : Function.update (Function.update s.heap b x) c y a = some n := by
    rw [Function.update_of_ne hac,Function.update_of_ne hab,ha]
  simp [deleteNode,unlinkNode,hsearch,Heap.load_live ha,hp,hn,bind,Except.bind,Heap.modify_live hb,
    Heap.modify_live (hc' _),Heap.free_live (ha' _ _)]

/-- deleteNode takes out exactly the node that search found. -/
theorem deleteNode_represents {s : ListState} {hd a : Addr} {l r : List (Addr × Int32)} {value : Int32}
    (h : Represents s hd (l ++ (a,value) :: r)) {fuel : Nat}
    (hsearch : search fuel value s = .ok (some a)) :
    ∃ t, deleteNode fuel value s = .ok t ∧ Represents t hd (l ++ r) := by
  obtain ⟨ys,⟨b,e⟩,he⟩ := List.eq_nil_or_concat' ((hd,(-1 : Int32)) :: l) |>.resolve_left (by simp)
  obtain ⟨hhead,hseg,hnd,htail⟩ := h
  have hkeep : (((hd,-1) :: (l ++ r)).map Prod.fst).Nodup := by
    refine hnd.sublist (List.Sublist.map _ ?_)
    exact .cons_cons _ ((List.Sublist.refl l).append (List.sublist_cons_self _ r))
  rw [← List.cons_append,he] at hseg hnd htail
  rw [← List.cons_append,he] at hkeep
  obtain ⟨hleft,ha,hright⟩ := segment_append.mp hseg
  obtain ⟨_,hb,_⟩ := segment_append.mp hleft
  rw [last_concat] at ha
  have hab : a ≠ b := by
    rintro rfl
    rw [List.map_append,List.nodup_append] at hnd
    exact hnd.2.2 a (by simp) a (by simp) rfl
  cases r with
  | nil =>
    refine ⟨_,deleteNode_last hsearch ha hb rfl rfl hab,hhead,?_,?_,?_⟩
    · rw [List.append_assoc] at hseg hnd
      rw [List.append_nil,he]
      exact hseg.unlink_last hnd
    · simpa [he] using hkeep
    · rw [List.append_nil,he,last_concat]
  | cons x r =>
    obtain ⟨c,f⟩ := x
    rw [List.append_assoc] at hseg hnd
    have hac : a ≠ c := by
      rintro rfl
      simp [List.nodup_append] at hnd
    have hbc : b ≠ c := by
      rintro rfl
      simp [List.nodup_append] at hnd
    refine ⟨_,deleteNode_inner hsearch ha hb hright.1 rfl rfl hab hac hbc,hhead,?_,?_,?_⟩
    · rw [← List.cons_append,he,List.append_assoc]
      exact hseg.unlink_inner hnd
    · rw [← List.cons_append,he]
      exact hkeep
    · rw [htail,← List.cons_append,he,last_append _ (ys ++ [(b,e)]),last_append _ (ys ++ [(b,e)])]
      rfl

theorem deleteNode_miss {s : ListState} {fuel : Nat} {value : Int32}
    (hsearch : search fuel value s = .ok none) : deleteNode fuel value s = .ok s := by
  simp [deleteNode,hsearch,bind,Except.bind]

theorem searchFrom_mono {h : Heap Addr Node} {value : Int32} {fuel : Nat} {p : Option Addr}
    (hr : searchFrom h value fuel p ≠ .error .stillRunning) (extra : Nat) :
    searchFrom h value (fuel + extra) p = searchFrom h value fuel p := by
  induction fuel generalizing p with
  | zero => exact absurd rfl hr
  | succ fuel ih =>
    rw [Nat.add_right_comm]
    cases p with
    | none => rfl
    | some a =>
      rw [searchFrom] at hr ⊢
      rw [searchFrom]
      cases hl : h.load (some a) with
      | error e => rfl
      | ok node =>
        simp only [hl,bind,Except.bind] at hr ⊢
        split
        · rfl
        · rename_i hv
          rw [if_neg hv] at hr
          exact ih hr

theorem Represents.search_eq {s : ListState} {hd : Addr} {xs : List (Addr × Int32)}
    (h : Represents s hd xs) {value : Int32} {fuel : Nat}
    (hr : ListDemo.search fuel value s ≠ .error .stillRunning) :
    ListDemo.search fuel value s = .ok (findLast value ((hd,-1) :: xs)) :=
  (searchFrom_mono hr _).symm.trans (h.search value (Nat.le_add_left (xs.length + 2) fuel))

theorem Represents.search_cases {s : ListState} {hd : Addr} {xs : List (Addr × Int32)}
    (h : Represents s hd xs) {value : Int32} {fuel : Nat}
    (hr : ListDemo.search fuel value s ≠ .error .stillRunning) :
    ListDemo.search fuel value s = .ok none ∨
    ∃ l a r, xs = l ++ (a,value) :: r ∧ ListDemo.search fuel value s = .ok (some a) := by
  have hs := h.search_eq hr
  rcases findLast_cases hd xs value with ⟨hn,_⟩ | ⟨l,a,r,hx,_,_,ha⟩
  · exact .inl (hs.trans (by rw [hn]))
  · exact .inr ⟨l,a,r,hx,hs.trans (by rw [ha])⟩

theorem Represents.deleteNode {s : ListState} {hd : Addr} {xs : List (Addr × Int32)}
    (h : Represents s hd xs) {value : Int32} {fuel : Nat}
    (hr : ListDemo.search fuel value s ≠ .error .stillRunning) :
    ∃ t ys, deleteNode fuel value s = .ok t ∧ Represents t hd ys := by
  rcases h.search_cases hr with hs | ⟨l,a,r,rfl,hs⟩
  · exact ⟨s,xs,deleteNode_miss hs,h⟩
  · obtain ⟨t,ht,hrep⟩ := deleteNode_represents h hs
    exact ⟨t,l ++ r,ht,hrep⟩

theorem reachable_represents {s : ListState} (h : system.Reachable s) :
    ∃ hd xs, Represents s hd xs := by
  refine System.invariant (S := system) (P := fun s => ∃ hd xs, Represents s hd xs) ?_ ?_ h
  · rintro s ⟨a,garbage,hs⟩
    exact ⟨a,[],initilizeList_represents hs⟩
  · rintro s (⟨a,garbage,value⟩ | ⟨fuel,value⟩) t _ ⟨hd,xs,hrep⟩ ht
    · simp only [system,step,Option.ite_none_right_eq_some,Option.isNone_iff_eq_none] at ht
      obtain ⟨u,hu,hrep'⟩ := insert_represents hrep ht.1 garbage value
      rw [hu] at ht
      cases ht.2
      exact ⟨hd,_,hrep'⟩
    · have ht : deleteNode fuel value s = .ok t := by
        simp only [system,step] at ht
        cases hd : deleteNode fuel value s with
        | error e => simp [hd,Except.toOption] at ht
        | ok u => simpa [hd,Except.toOption] using ht
      have hover : search fuel value s ≠ .error .stillRunning := by
        intro hs
        simp [deleteNode,hs,bind,Except.bind] at ht
      obtain ⟨u,ys,hu,hrep'⟩ := hrep.deleteNode hover
      rw [hu] at ht
      cases ht
      exact ⟨hd,ys,hrep'⟩

end MyCpp.ListDemo
