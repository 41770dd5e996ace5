import MyCpp.ConfigWatch.ConfigModel
import MyCpp.Library.UniqueKeys

/-! Python equality is an equivalence on the values json.load returns: the dictionaries in
them have every key once. -/
namespace MyCpp.ConfigWatch
open UniqueKeys

/-- Every dictionary in a value has its keys once. -/
inductive Json.UniqueKeys : Json → Prop where
  | null : UniqueKeys .null
  | bool (b : Bool) : UniqueKeys (.bool b)
  | int (n : Int) : UniqueKeys (.int n)
  | float (x : PyFloat) : UniqueKeys (.float x)
  | str (s : String) : UniqueKeys (.str s)
  | arr {items : List Json} (h : ∀ x ∈ items, UniqueKeys x) : UniqueKeys (.arr items)
  | obj {members : List (String × Json)} (hk : (members.map Prod.fst).Nodup)
      (h : ∀ m ∈ members, UniqueKeys m.2) : UniqueKeys (.obj members)

private theorem forall₂_trans {R : Json → Json → Prop} {xs ys zs : List Json}
    (h : ∀ x ∈ xs, ∀ y z, R x y → R y z → R x z) (hxy : List.Forall₂ R xs ys)
    (hyz : List.Forall₂ R ys zs) : List.Forall₂ R xs zs := by
  induction hxy generalizing zs with
  | nil => exact hyz
  | cons hab _ ih =>
    cases hyz with
    | cons hbc hbcs =>
      rw [List.forall_mem_cons] at h
      exact .cons (h.1 _ _ hab hbc) (ih h.2 hbcs)

private theorem forall₂_symm {R : Json → Json → Prop} {xs ys : List Json}
    (h : ∀ x ∈ xs, ∀ y ∈ ys, R x y → R y x) (hxy : List.Forall₂ R xs ys) : List.Forall₂ R ys xs := by
  induction hxy with
  | nil => exact .nil
  | cons hab _ ih =>
    refine .cons (h _ List.mem_cons_self _ List.mem_cons_self hab) (ih ?_)
    intro x hx y hy
    exact h x (List.mem_cons_of_mem _ hx) y (List.mem_cons_of_mem _ hy)

theorem items_iff {eq : Json → Json → Bool} {items : List Json → List Json → Bool} (hnil : items [] [] = true)
    (hleft : ∀ x xs, items (x :: xs) [] = false) (hright : ∀ y ys, items [] (y :: ys) = false)
    (hcons : ∀ x xs y ys, items (x :: xs) (y :: ys) = (eq x y && items xs ys)) {xs ys : List Json} :
    items xs ys = true ↔ List.Forall₂ (fun x y => eq x y = true) xs ys := by
  induction xs generalizing ys with
  | nil => cases ys <;> simp [hnil,hright]
  | cons x xs ih => cases ys <;> simp [hleft,hcons,ih]

theorem members_iff {eq : Json → Json → Bool} {members : List (String × Json) → List (String × Json) → Bool}
    (hnil : ∀ ns, members [] ns = true)
    (hcons : ∀ k v ms ns, members ((k,v) :: ms) ns = ((ns.lookup k).any (eq v) && members ms ns))
    {ms ns : List (String × Json)} :
    members ms ns = true ↔ ∀ m ∈ ms, ∃ w, ns.lookup m.1 = some w ∧ eq m.2 w = true := by
  induction ms with
  | nil => simp [hnil]
  | cons m ms ih =>
    obtain ⟨k,v⟩ := m
    rw [hcons,Bool.and_eq_true,ih,List.forall_mem_cons]
    cases ns.lookup k <;> simp

theorem pyEqItems_iff {xs ys : List Json} :
    pyEqItems xs ys = true ↔ List.Forall₂ (fun x y => pyEq x y = true) xs ys := by
  apply items_iff
  all_goals simp [pyEqItems]

theorem pyEqMembers_iff {ms ns : List (String × Json)} :
    pyEqMembers ms ns = true ↔ ∀ m ∈ ms, ∃ w, ns.lookup m.1 = some w ∧ pyEq m.2 w = true := by
  apply members_iff
  · simp [pyEqMembers]
  · intro k v ms ns
    rw [pyEqMembers]
    cases ns.lookup k <;> rfl

@[simp] theorem pyEq_null {y : Json} : pyEq .null y = true ↔ y = .null := by
  cases y <;> simp [pyEq,Json.numeric]

@[simp] theorem pyEq_str {s : String} {y : Json} : pyEq (.str s) y = true ↔ y = .str s := by
  cases y with
  | str t => simp [pyEq,eq_comm (a := s)]
  | _ => simp [pyEq,Json.numeric]

theorem pyEq_arr {xs : List Json} {y : Json} :
    pyEq (.arr xs) y = true ↔ ∃ ys, y = .arr ys ∧ List.Forall₂ (fun x y => pyEq x y = true) xs ys := by
  cases y <;> simp [pyEq,Json.numeric,pyEqItems_iff]

theorem pyEq_obj {ms : List (String × Json)} {y : Json} :
    pyEq (.obj ms) y = true ↔ ∃ ns, y = .obj ns ∧ ms.length = ns.length ∧
      ∀ m ∈ ms, ∃ w, ns.lookup m.1 = some w ∧ pyEq m.2 w = true := by
  cases y <;> simp [pyEq,Json.numeric,pyEqMembers_iff]

theorem pyEq_number {x y : Json} {p : PyFloat} (h : x.numeric = some p) :
    pyEq x y = true ↔ y.numeric = some p := by
  have hx : pyEq x y = (x.numeric.bind fun p => y.numeric.map (p == ·)).getD false := by
    cases x with
    | null => cases h
    | str s => cases h
    | arr items => cases h
    | obj members => cases h
    | _ => cases y <;> rfl
  rw [hx,h]
  cases y.numeric with
  | none => simp
  | some q => simp [eq_comm (a := p)]

theorem Json.UniqueKeys.refl {x : Json} (h : x.UniqueKeys) : pyEq x x = true := by
  induction h with
  | null => exact pyEq_null.mpr rfl
  | str s => exact pyEq_str.mpr rfl
  | arr h ih => exact pyEq_arr.mpr ⟨_,rfl,List.forall₂_same.mpr ih⟩
  | obj hk h ih =>
    apply pyEq_obj.mpr
    refine ⟨_,rfl,rfl,?_⟩
    intro m hm
    exact ⟨m.2,lookup_of_mem hk hm,ih m hm⟩
  | _ => exact (pyEq_number rfl).mpr rfl

theorem Json.UniqueKeys.trans {x y z : Json} (h : x.UniqueKeys) (hxy : pyEq x y = true)
    (hyz : pyEq y z = true) : pyEq x z = true := by
  induction h generalizing y z with
  | null =>
    obtain rfl := pyEq_null.mp hxy
    exact hyz
  | str s =>
    obtain rfl := pyEq_str.mp hxy
    exact hyz
  | arr h ih =>
    obtain ⟨ys,rfl,hys⟩ := pyEq_arr.mp hxy
    obtain ⟨zs,rfl,hzs⟩ := pyEq_arr.mp hyz
    apply pyEq_arr.mpr
    refine ⟨zs,rfl,forall₂_trans ?_ hys hzs⟩
    intro x hx y z
    exact ih x hx
  | obj hk h ih =>
    obtain ⟨ns,rfl,hlen,hns⟩ := pyEq_obj.mp hxy
    obtain ⟨ps,rfl,hlen',hps⟩ := pyEq_obj.mp hyz
    apply pyEq_obj.mpr
    refine ⟨ps,rfl,hlen.trans hlen',?_⟩
    intro m hm
    obtain ⟨w,hw,he⟩ := hns m hm
    obtain ⟨u,hu,he'⟩ := hps _ (mem_of_lookup hw)
    exact ⟨u,hu,ih m hm he he'⟩
  | _ => exact (pyEq_number rfl).mpr ((pyEq_number ((pyEq_number rfl).mp hxy)).mp hyz)

private theorem keys_of_equal {ms ns : List (String × Json)}
    (h : ∀ m ∈ ms, ∃ w, ns.lookup m.1 = some w ∧ pyEq m.2 w = true) :
    ms.map Prod.fst ⊆ ns.map Prod.fst := by
  intro k hk
  obtain ⟨m,hm,rfl⟩ := List.mem_map.mp hk
  obtain ⟨w,hw,_⟩ := h m hm
  exact List.mem_map.mpr ⟨_,mem_of_lookup hw,rfl⟩

/-- Two dictionaries of one size in which each key of the first leads to an equal value have
the same keys. -/
theorem Json.UniqueKeys.symm {x y : Json} (h : x.UniqueKeys) (hy : y.UniqueKeys)
    (hxy : pyEq x y = true) : pyEq y x = true := by
  induction h generalizing y with
  | null =>
    obtain rfl := pyEq_null.mp hxy
    exact hxy
  | str s =>
    obtain rfl := pyEq_str.mp hxy
    exact hxy
  | arr h ih =>
    obtain ⟨ys,rfl,hys⟩ := pyEq_arr.mp hxy
    cases hy with
    | arr h' =>
      apply pyEq_arr.mpr
      refine ⟨_,rfl,forall₂_symm ?_ hys⟩
      intro x hx y hy
      exact ih x hx (h' y hy)
  | obj hk h ih =>
    obtain ⟨ns,rfl,hlen,hns⟩ := pyEq_obj.mp hxy
    cases hy with
    | obj hk' h' =>
      apply pyEq_obj.mpr
      refine ⟨_,rfl,hlen.symm,?_⟩
      intro n hn
      have hkeys := keys_subset hk hlen (keys_of_equal hns)
      obtain ⟨m,hm,hmn⟩ := List.mem_map.mp (hkeys (List.mem_map_of_mem hn))
      obtain ⟨w,hw,he⟩ := hns m hm
      rw [hmn,lookup_of_mem hk' hn] at hw
      cases hw
      refine ⟨m.2,?_,ih m hm (h' n hn) he⟩
      rw [← hmn]
      exact lookup_of_mem hk hm
  | _ => exact (pyEq_number ((pyEq_number rfl).mp hxy)).mpr rfl

end MyCpp.ConfigWatch
