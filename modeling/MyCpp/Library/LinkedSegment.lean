import Mathlib.Data.List.Induction
import Mathlib.Data.List.Nodup
import MyCpp.Library.PointerHeap

/-! Doubly linked segments of a heap. A segment lists addresses with their data between an
incoming and an outgoing pointer; both link fields of every cell are pinned down. -/
namespace MyCpp.LinkedSegment
open PointerHeap
variable {A D : Type*}

structure Cell (A D : Type*) where
  data : D
  prev : Option A
  next : Option A
  deriving DecidableEq

/-- The address a segment starts with, or where its outgoing pointer leads. -/
def first : List (A × D) → Option A → Option A
  | [], n => n
  | (a,_) :: _, _ => some a

/-- The address a segment ends with, or where its incoming pointer leads. -/
def last : Option A → List (A × D) → Option A
  | p, [] => p
  | _, (a,_) :: rest => last (some a) rest

def Segment (h : Heap A (Cell A D)) : Option A → List (A × D) → Option A → Prop
  | _, [], _ => True
  | p, (a,d) :: rest, n => h a = some ⟨d,p,first rest n⟩ ∧ Segment h (some a) rest n

/-- Following one link field from a pointer visits exactly these addresses, then null. -/
def Walk (h : Heap A (Cell A D)) (link : Cell A D → Option A) : Option A → List A → Prop
  | p, [] => p = none
  | p, a :: rest => p = some a ∧ ∃ c, h a = some c ∧ Walk h link (link c) rest

/-- Following next from a pointer reads exactly these cells, then null. -/
def Reads (h : Heap A (Cell A D)) : Option A → List (A × D) → Prop
  | p, [] => p = none
  | p, (a,d) :: rest => p = some a ∧ ∃ c, h a = some c ∧ c.data = d ∧ Reads h c.next rest

@[simp] theorem last_concat (p : Option A) (xs : List (A × D)) (a : A) (d : D) :
    last p (xs ++ [(a,d)]) = some a := by
  induction xs generalizing p with
  | nil => rfl
  | cons x xs ih => exact ih _

@[simp] theorem first_append (xs ys : List (A × D)) (n : Option A) :
    first (xs ++ ys) n = first xs (first ys n) := by
  cases xs <;> rfl

theorem last_append (p : Option A) (xs ys : List (A × D)) :
    last p (xs ++ ys) = last (last p xs) ys := by
  induction xs generalizing p with
  | nil => rfl
  | cons x xs ih => exact ih _

theorem segment_append {h : Heap A (Cell A D)} {p n : Option A} {xs ys : List (A × D)} :
    Segment h p (xs ++ ys) n ↔ Segment h p xs (first ys n) ∧ Segment h (last p xs) ys n := by
  induction xs generalizing p with
  | nil => simp [Segment,last]
  | cons x xs ih =>
    obtain ⟨a,d⟩ := x
    simp only [List.cons_append,Segment,first_append,last,ih,and_assoc]

theorem Segment.live {h : Heap A (Cell A D)} {p n : Option A} {xs : List (A × D)}
    (hs : Segment h p xs n) {a : A} {d : D} (ha : (a,d) ∈ xs) :
    ∃ c, h a = some c ∧ c.data = d := by
  induction xs generalizing p with
  | nil => cases ha
  | cons x xs ih =>
    obtain ⟨b,e⟩ := x
    rcases List.mem_cons.mp ha with he | ha
    · cases he
      exact ⟨_,hs.1,rfl⟩
    · exact ih hs.2 ha

theorem Segment.reads {h : Heap A (Cell A D)} {p : Option A} {xs : List (A × D)}
    (hs : Segment h p xs none) : Reads h (first xs none) xs := by
  induction xs generalizing p with
  | nil => rfl
  | cons x xs ih => exact ⟨rfl,_,hs.1,rfl,ih hs.2⟩

theorem Reads.unique {h : Heap A (Cell A D)} {p : Option A} {xs ys : List (A × D)}
    (hx : Reads h p xs) (hy : Reads h p ys) : xs = ys := by
  induction xs generalizing p ys with
  | nil =>
    cases ys with
    | nil => rfl
    | cons y ys => cases hx.symm.trans hy.1
  | cons x xs ih =>
    obtain ⟨rfl,c,hc,hd,hx⟩ := hx
    cases ys with
    | nil => cases hy
    | cons y ys =>
      obtain ⟨hp,e,he,hd',hy⟩ := hy
      have hp := Option.some.inj hp
      rw [← hp,hc] at he
      cases he
      rw [ih hx hy,Prod.ext hp (hd.symm.trans hd')]

theorem Segment.walk_next {h : Heap A (Cell A D)} {p : Option A} {xs : List (A × D)}
    (hs : Segment h p xs none) : Walk h Cell.next (first xs none) (xs.map Prod.fst) := by
  induction xs generalizing p with
  | nil => rfl
  | cons x xs ih => exact ⟨rfl,_,hs.1,ih hs.2⟩

theorem Segment.walk_prev {h : Heap A (Cell A D)} {n : Option A} {xs : List (A × D)}
    (hs : Segment h none xs n) : Walk h Cell.prev (last none xs) (xs.map Prod.fst).reverse := by
  induction xs using List.reverseRecOn generalizing n with
  | nil => rfl
  | append_singleton xs x ih =>
    obtain ⟨a,d⟩ := x
    obtain ⟨hl,hr⟩ := segment_append.mp hs
    rw [List.map_append,List.reverse_append,last_concat]
    exact ⟨rfl,_,hr.1,ih hl⟩

/-- Where the links of a segment lead: into the segment or out at its ends. -/
theorem Segment.links {h : Heap A (Cell A D)} {p n : Option A} {xs : List (A × D)}
    (hs : Segment h p xs n) {a : A} (ha : a ∈ xs.map Prod.fst) {c : Cell A D} (hc : h a = some c) :
    (c.prev = p ∨ ∃ b ∈ xs.map Prod.fst, c.prev = some b) ∧
      (c.next = n ∨ ∃ b ∈ xs.map Prod.fst, c.next = some b) := by
  induction xs generalizing p with
  | nil => cases ha
  | cons x xs ih =>
    obtain ⟨b,e⟩ := x
    rcases List.mem_cons.mp ha with rfl | ha
    · rw [hs.1] at hc
      cases hc
      refine ⟨.inl rfl,?_⟩
      cases xs with
      | nil => exact .inl rfl
      | cons y ys => exact .inr ⟨y.1,by simp,rfl⟩
    · obtain ⟨hp,hn⟩ := ih hs.2 ha
      refine ⟨.inr ?_,?_⟩
      · rcases hp with hp | ⟨y,hy,hp⟩
        · exact ⟨b,by simp,hp⟩
        · exact ⟨y,List.mem_cons_of_mem _ hy,hp⟩
      · rcases hn with hn | ⟨y,hy,hn⟩
        · exact .inl hn
        · exact .inr ⟨y,List.mem_cons_of_mem _ hy,hn⟩

section Update
variable [DecidableEq A]

theorem Segment.frame {h : Heap A (Cell A D)} {p n : Option A} {xs : List (A × D)}
    (hs : Segment h p xs n) {a : A} (ha : a ∉ xs.map Prod.fst) (c : Option (Cell A D)) :
    Segment (Function.update h a c) p xs n := by
  induction xs generalizing p with
  | nil => trivial
  | cons x xs ih =>
    obtain ⟨b,d⟩ := x
    simp only [List.map_cons,List.mem_cons,not_or] at ha
    exact ⟨by rw [Function.update_of_ne (Ne.symm ha.1)]; exact hs.1,ih hs.2 ha.2⟩

theorem Segment.set_next {h : Heap A (Cell A D)} {p n : Option A} {xs : List (A × D)} {a : A} {d : D}
    (hs : Segment h p (xs ++ [(a,d)]) n) (ha : a ∉ xs.map Prod.fst) (m : Option A) :
    Segment (Function.update h a (some ⟨d,last p xs,m⟩)) p (xs ++ [(a,d)]) m := by
  have hl := (segment_append.mp hs).1
  exact segment_append.mpr ⟨hl.frame ha _,by simp [first],trivial⟩

theorem Segment.set_prev {h : Heap A (Cell A D)} {p n : Option A} {xs : List (A × D)} {a : A} {d : D}
    (hs : Segment h p ((a,d) :: xs) n) (ha : a ∉ xs.map Prod.fst) (q : Option A) :
    Segment (Function.update h a (some ⟨d,q,first xs n⟩)) q ((a,d) :: xs) n :=
  ⟨by simp,hs.2.frame ha _⟩

/-- Linking a fresh cell behind the last one extends the segment at its end. -/
theorem Segment.link {h : Heap A (Cell A D)} {p : Option A} {xs : List (A × D)} {a b : A} {d e : D}
    (hs : Segment h p (xs ++ [(a,d)]) none) (ha : a ∉ xs.map Prod.fst)
    (hb : b ∉ (xs ++ [(a,d)]).map Prod.fst) :
    Segment (Function.update (Function.update h a (some ⟨d,last p xs,some b⟩)) b (some ⟨e,some a,none⟩))
      p (xs ++ [(a,d)] ++ [(b,e)]) none := by
  refine segment_append.mpr ⟨(hs.set_next ha (some b)).frame hb _,?_,trivial⟩
  rw [last_concat]
  exact Function.update_self ..

/-- Taking out the last cell: its predecessor becomes the last one. -/
theorem Segment.unlink_last {h : Heap A (Cell A D)} {p n : Option A} {xs : List (A × D)} {a b : A}
    {d e : D} (hs : Segment h p (xs ++ [(b,e),(a,d)]) n)
    (hn : ((xs ++ [(b,e),(a,d)]).map Prod.fst).Nodup) :
    Segment (Function.update (Function.update h b (some ⟨e,last p xs,n⟩)) a none)
      p (xs ++ [(b,e)]) n := by
  rw [List.append_cons] at hs hn
  have hl := (segment_append.mp hs).1
  simp only [List.map_append,List.map_cons,List.map_nil,List.nodup_append] at hn
  refine (hl.set_next ?_ n).frame ?_ none
  · intro hb
    exact hn.1.2.2 b hb b (by simp) rfl
  · intro ha
    exact hn.2.2 a (by simpa using ha) a (by simp) rfl

/-- Taking out an inner cell: its two neighbours are linked to each other. -/
theorem Segment.unlink_inner {h : Heap A (Cell A D)} {p n : Option A} {xs ys : List (A × D)}
    {a b c : A} {d e f : D} (hs : Segment h p (xs ++ (b,e) :: (a,d) :: (c,f) :: ys) n)
    (hn : ((xs ++ (b,e) :: (a,d) :: (c,f) :: ys).map Prod.fst).Nodup) :
    Segment (Function.update (Function.update (Function.update h
        b (some ⟨e,last p xs,some c⟩)) c (some ⟨f,some b,first ys n⟩)) a none)
      p (xs ++ (b,e) :: (c,f) :: ys) n := by
  rw [List.append_cons] at hs hn ⊢
  obtain ⟨hl,hr⟩ := segment_append.mp hs
  rw [last_concat] at hr
  simp only [List.map_append,List.map_cons,List.map_nil,List.nodup_append,List.nodup_cons,
    List.mem_append,List.mem_cons] at hn
  refine segment_append.mpr ⟨?_,?_⟩
  · refine (((hl.set_next ?_ (some c)).frame ?_ _).frame ?_ none)
    · intro hb
      exact hn.1.2.2 b hb b (by simp) rfl
    · intro hc
      exact hn.2.2 c (by simpa using hc) c (by simp) rfl
    · intro ha
      exact hn.2.2 a (by simpa using ha) a (by simp) rfl
  · rw [last_concat]
    have hb : b ∉ ((c,f) :: ys).map Prod.fst := by
      intro hb
      exact hn.2.2 b (by simp) b (.inr (List.mem_cons.mp hb)) rfl
    refine Segment.frame ?_ (by simpa using hn.2.1.1) none
    exact Segment.set_prev (hr.2.frame hb _) (by simpa using hn.2.1.2.1) (some b)

end Update
end MyCpp.LinkedSegment
