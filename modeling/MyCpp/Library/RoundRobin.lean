import Mathlib.Data.List.Nodup
import Mathlib.Data.Nat.Count

/-! A queue served from its front: an element that fails goes to the back and one that
succeeds leaves. Rounds are fair, and they end with the success of the last element. -/
namespace MyCpp.RoundRobin
variable {α β : Type*} {outcome : ℕ → Bool} {initial : List α}

/-- The queue and the attempts made so far, each with its outcome. -/
structure Rounds (α : Type*) where
  queue : List α
  tried : List (α × Bool) := []

/-- One attempt on the front of the queue; the k-th attempt overall has the k-th outcome. -/
def Rounds.serve (outcome : ℕ → Bool) (p : Rounds α) : Rounds α :=
  match p.queue with
  | [] => p
  | x :: rest =>
    { queue := rest ++ if outcome p.tried.length then [] else [x]
      tried := p.tried ++ [(x,outcome p.tried.length)] }

def rounds (outcome : ℕ → Bool) (initial : List α) : ℕ → Rounds α
  | 0 => { queue := initial }
  | m + 1 => (rounds outcome initial m).serve outcome

/-- The induction rule: what holds at the start and is kept by an attempt always holds. -/
theorem rounds_induction {P : Rounds α → Prop} (hi : P { queue := initial })
    (hn : ∀ x rest tried, P ⟨x :: rest,tried⟩ → P ⟨rest ++ if outcome tried.length then [] else [x],
      tried ++ [(x,outcome tried.length)]⟩) (m : ℕ) : P (rounds outcome initial m) := by
  induction m with
  | zero => exact hi
  | succ m ih =>
    rw [rounds]
    generalize rounds outcome initial m = p at ih
    obtain ⟨queue,tried⟩ := p
    cases queue with
    | nil => exact ih
    | cons x rest => exact hn x rest tried ih

def Rounds.map (f : α → β) (p : Rounds α) : Rounds β where
  queue := p.queue.map f
  tried := p.tried.map (Prod.map f id)

theorem Rounds.map_serve (f : α → β) (p : Rounds α) : (p.serve outcome).map f = (p.map f).serve outcome := by
  obtain ⟨queue,tried⟩ := p
  cases queue with
  | nil => rfl
  | cons x rest =>
    simp only [serve,map,List.map_append,List.map_cons,List.length_map,List.map_nil,Prod.map_apply,id_eq]
    split <;> rfl

theorem rounds_map (f : α → β) (m : ℕ) :
    (rounds outcome initial m).map f = rounds outcome (initial.map f) m := by
  induction m with
  | zero => rfl
  | succ m ih => rw [rounds,rounds,Rounds.map_serve,ih]

/-- Every success shortens the queue by one, and before its last attempt it was not empty. -/
theorem rounds_count (outcome : ℕ → Bool) (initial : List α) (m : ℕ) :
    (rounds outcome initial m).queue.length +
      Nat.count (outcome · = true) (rounds outcome initial m).tried.length = initial.length ∧
    ∀ n < (rounds outcome initial m).tried.length, Nat.count (outcome · = true) n < initial.length := by
  apply rounds_induction (P := fun p =>
    p.queue.length + Nat.count (outcome · = true) p.tried.length = initial.length ∧
    ∀ n < p.tried.length, Nat.count (outcome · = true) n < initial.length)
  · simp
  · rintro x rest tried ⟨h,hshort⟩
    dsimp only at h hshort ⊢
    rw [List.length_cons] at h
    rw [List.length_append,List.length_append,List.length_singleton,Nat.count_succ]
    refine ⟨?_,fun n hn => ?_⟩
    · split
      · simp only [List.length_nil]
        omega
      · simp only [List.length_singleton]
        omega
    · rcases Nat.lt_succ_iff_lt_or_eq.mp hn with hn | rfl
      · exact hshort n hn
      · omega

/-- The induction rule for elements that are all different. -/
theorem rounds_induction_nodup {P : Rounds α → Prop} (h : initial.Nodup) (hi : P { queue := initial })
    (hn : ∀ x rest tried, x ∉ rest → P ⟨x :: rest,tried⟩ → P ⟨rest ++ if outcome tried.length then [] else [x],
      tried ++ [(x,outcome tried.length)]⟩) (m : ℕ) : P (rounds outcome initial m) := by
  refine (rounds_induction (P := fun p => p.queue.Nodup ∧ P p) ⟨h,hi⟩ ?_ m).2
  rintro x rest tried ⟨hx,hp⟩
  refine ⟨?_,hn x rest tried (List.nodup_cons.mp hx).1 hp⟩
  dsimp only
  split
  · rw [List.append_nil]
    exact (List.nodup_cons.mp hx).2
  · rw [List.nodup_append_comm]
    exact hx

theorem mem_failed {x y : α} {ok : Bool} (h : y ∈ if ok then [] else [x]) : y = x := by
  cases ok with
  | true => cases h
  | false => exact List.mem_singleton.mp h

theorem concat_eq_cases {β : Type*} {l l' r : List β} {e e' : β} (h : l ++ [e] = l' ++ e' :: r) :
    (r = [] ∧ l = l' ∧ e = e') ∨ ∃ r', r = r' ++ [e] ∧ l = l' ++ e' :: r' := by
  rcases List.eq_nil_or_concat' r with rfl | ⟨r',f,rfl⟩
  · obtain ⟨hl,he⟩ := List.append_inj' h rfl
    exact .inl ⟨rfl,hl,(List.cons.inj he).1⟩
  · rw [← List.cons_append,← List.append_assoc] at h
    obtain ⟨hl,he⟩ := List.append_inj' h rfl
    exact .inr ⟨r',by rw [(List.cons.inj he).1],hl⟩

/-- An element of the queue after an attempt on `x`: it is `x` at the end, or it was there
before and what is behind it too, except for `x`. -/
theorem requeued_cases {x z : α} {ok : Bool} {rest ahead after : List α}
    (h : (rest ++ if ok then [] else [x]) = ahead ++ z :: after) :
    (x = z ∧ after = []) ∨ ∃ after', rest = ahead ++ z :: after' ∧ ∀ y ∈ after, y ∈ after' ∨ y = x := by
  cases ok with
  | true =>
    rw [if_pos rfl,List.append_nil] at h
    exact .inr ⟨after,h,fun y hy => .inl hy⟩
  | false =>
    rw [if_neg Bool.false_ne_true] at h
    rcases concat_eq_cases h with ⟨hafter,_,hx⟩ | ⟨after',rfl,hrest⟩
    · exact .inl ⟨hx,hafter⟩
    · refine .inr ⟨after',hrest,fun y hy => ?_⟩
      rcases List.mem_append.mp hy with hy | hy
      · exact .inl hy
      · exact .inr (List.mem_singleton.mp hy)

/-- What is behind `x` in the queue has been tried after it, and between two attempts on `x`
so has everything that is still in the queue. -/
structure Rounds.Spaced (p : Rounds α) : Prop where
  behind : ∀ l x b r, p.tried = l ++ (x,b) :: r → ∀ ahead after, p.queue = ahead ++ x :: after →
    ∀ y ∈ after, y ∈ r.map Prod.fst
  between : ∀ l x b mid b' r, p.tried = l ++ (x,b) :: mid ++ (x,b') :: r →
    ∀ y ∈ p.queue, y ≠ x → y ∈ mid.map Prod.fst

theorem Rounds.Spaced.serve {x : α} {rest : List α} {tried : List (α × Bool)} (ok : Bool) (hx : x ∉ rest)
    (h : Rounds.Spaced ⟨x :: rest,tried⟩) :
    Rounds.Spaced ⟨rest ++ if ok then [] else [x],tried ++ [(x,ok)]⟩ := by
  constructor
  · intro l z b r htried ahead after hqueue y hy
    rcases requeued_cases hqueue with ⟨_,rfl⟩ | ⟨after',hrest,hafter⟩
    · cases hy
    have hzx : z ≠ x := by
      rintro rfl
      exact hx (hrest ▸ by simp)
    rcases concat_eq_cases htried with ⟨_,_,he⟩ | ⟨r',rfl,hl⟩
    · exact absurd (Prod.mk.inj he).1.symm hzx
    · rw [List.map_append,List.mem_append]
      rcases hafter y hy with hy | rfl
      · exact .inl (h.behind l z b r' hl (x :: ahead) after' (by rw [hrest]; rfl) y hy)
      · exact .inr (by simp)
  · intro l z b mid b' r htried y hy hne
    rcases concat_eq_cases htried with ⟨_,hl,he⟩ | ⟨r',_,hl⟩
    · obtain ⟨rfl,_⟩ := Prod.mk.inj he
      refine h.behind l x b mid hl [] rest rfl y ?_
      rcases List.mem_append.mp hy with hy | hy
      · exact hy
      · exact absurd (mem_failed hy) hne
    · refine h.between l z b mid b' r' hl y ?_ hne
      rcases List.mem_append.mp hy with hy | hy
      · exact List.mem_cons_of_mem _ hy
      · exact mem_failed hy ▸ List.mem_cons_self

theorem rounds_spaced (outcome : ℕ → Bool) (h : initial.Nodup) (m : ℕ) : (rounds outcome initial m).Spaced := by
  refine rounds_induction_nodup h ⟨?_,?_⟩ (fun x rest tried hx hs => hs.serve _ hx) m
  · intro l x b r htried
    simp at htried
  · intro l x b mid b' r htried
    simp at htried

section Fairness
variable [DecidableEq α]

def Rounds.tries (p : Rounds α) (x : α) : ℕ := (p.tried.map Prod.fst).count x

theorem tries_append (queue : List α) (tried : List (α × Bool)) (x : α) (ok : Bool) (y : α) :
    Rounds.tries ⟨queue,tried ++ [(x,ok)]⟩ y = Rounds.tries ⟨queue,tried⟩ y + if x = y then 1 else 0 := by
  simp [Rounds.tries,List.count_singleton]

/-- The front part has been tried `k` times, the back part once more, and nothing that is
done more often than that. -/
structure Rounds.Level (p : Rounds α) (k : ℕ) (front back : List α) : Prop where
  queue : p.queue = front ++ back
  front : ∀ x ∈ front, p.tries x = k
  back : ∀ x ∈ back, p.tries x = k + 1
  done : ∀ x, (x,true) ∈ p.tried → p.tries x ≤ k + 1

/-- The front of the queue changes its part; with an empty front part a new round begins. -/
theorem Rounds.Level.serve {x : α} {rest front back : List α} {tried : List (α × Bool)} {k : ℕ} (ok : Bool)
    (hx : x ∉ rest) (h : Rounds.Level ⟨x :: rest,tried⟩ k front back) :
    ∃ k front back, Rounds.Level ⟨rest ++ if ok then [] else [x],tried ++ [(x,ok)]⟩ k front back := by
  obtain ⟨hqueue,hfront,hback,hdone⟩ := h
  let p : Rounds α := ⟨rest ++ if ok then [] else [x],tried ++ [(x,ok)]⟩
  have tried_same {y : α} (hy : x ≠ y) : p.tries y = Rounds.tries ⟨x :: rest,tried⟩ y := by
    rw [tries_append,if_neg hy]
    rfl
  have tried_more : p.tries x = Rounds.tries ⟨x :: rest,tried⟩ x + 1 := by
    rw [tries_append,if_pos rfl]
    rfl
  have other {y : α} (hy : y ∈ rest) : x ≠ y := by
    rintro rfl
    exact hx hy
  have hdone' {n : ℕ} (hle : k ≤ n) (htries : Rounds.tries ⟨x :: rest,tried⟩ x ≤ n) :
      ∀ y, (y,true) ∈ p.tried → p.tries y ≤ n + 1 := by
    intro y hy
    by_cases hxy : x = y
    · subst hxy
      omega
    · rw [tried_same hxy]
      rcases List.mem_append.mp hy with hy | hy
      · exact (hdone y hy).trans (by omega)
      · cases List.mem_singleton.mp hy
        exact absurd rfl hxy
  cases front with
  | cons z front =>
    obtain ⟨rfl,rfl⟩ := List.cons.inj hqueue
    have hk := hfront x List.mem_cons_self
    refine ⟨k,front,back ++ if ok then [] else [x],List.append_assoc ..,?_,?_,hdone' (Nat.le_refl k) hk.le⟩
    · intro y hy
      rw [tried_same (other (List.mem_append_left _ hy))]
      exact hfront y (List.mem_cons_of_mem _ hy)
    · intro y hy
      rcases List.mem_append.mp hy with hy | hy
      · rw [tried_same (other (List.mem_append_right _ hy))]
        exact hback y hy
      · rw [mem_failed hy,tried_more,hk]
  | nil =>
    obtain rfl : back = x :: rest := hqueue.symm
    have hk := hback x List.mem_cons_self
    refine ⟨k+1,rest,if ok then [] else [x],rfl,?_,?_,hdone' (Nat.le_succ k) hk.le⟩
    · intro y hy
      rw [tried_same (other hy)]
      exact hback y (List.mem_cons_of_mem _ hy)
    · intro y hy
      rw [mem_failed hy,tried_more,hk]

/-- What is pending has been tried almost equally often. -/
theorem Rounds.Level.close {p : Rounds α} {k : ℕ} {front back : List α} (h : p.Level k front back) {x y : α}
    (hx : x ∈ p.queue) (hy : y ∈ p.queue) : p.tries x ≤ p.tries y + 1 := by
  have level {z : α} (hz : z ∈ p.queue) : p.tries z = k ∨ p.tries z = k + 1 := by
    rw [h.queue,List.mem_append] at hz
    exact hz.imp (h.front z) (h.back z)
  have hx := level hx
  have hy := level hy
  omega

theorem rounds_level (outcome : ℕ → Bool) (h : initial.Nodup) (m : ℕ) :
    ∃ k front back, (rounds outcome initial m).Level k front back := by
  apply rounds_induction_nodup (P := fun p => ∃ k front back, p.Level k front back) h
  · refine ⟨0,initial,[],⟨(List.append_nil _).symm,fun _ _ => rfl,?_,?_⟩⟩
    all_goals simp
  · rintro x rest tried hx ⟨k,front,back,hl⟩
    exact hl.serve _ hx

end Fairness

end MyCpp.RoundRobin
