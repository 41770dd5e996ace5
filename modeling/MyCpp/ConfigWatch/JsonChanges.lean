import MyCpp.ConfigWatch.PathLookup

/-! Python equality against the identity of JSON values. It differs in one thing, booleans
are numbers in Python, and None stands for null and for absence. -/
namespace MyCpp.ConfigWatch
open UniqueKeys

/-- The value of a JSON number, written with or without a fraction. -/
def Json.number : Json → Option PyFloat
  | .int n => some (.finite n)
  | .float x => some x
  | _ => none

mutual

/-- Two JSON values are the same: of one type, numbers by value, objects by their keys. -/
def jsonEq : Json → Json → Bool
  | .null, .null => true
  | .bool a, .bool b => a == b
  | .str s, .str t => s == t
  | .arr xs, .arr ys => jsonEqItems xs ys
  | .obj ms, .obj ns => ms.length == ns.length && jsonEqMembers ms ns
  | x, y => match x.number, y.number with
    | some p, some q => p == q
    | _, _ => false

def jsonEqItems : List Json → List Json → Bool
  | [], [] => true
  | x :: xs, y :: ys => jsonEq x y && jsonEqItems xs ys
  | _, _ => false

def jsonEqMembers : List (String × Json) → List (String × Json) → Bool
  | [], _ => true
  | (k,v) :: ms, ns => (match ns.lookup k with
    | some w => jsonEq v w
    | none => false) && jsonEqMembers ms ns

end

mutual

/-- A value with every boolean in it replaced by 0 or 1. -/
def Json.asNumbers : Json → Json
  | .bool b => .int (if b then 1 else 0)
  | .arr items => .arr (asNumbersItems items)
  | .obj members => .obj (asNumbersMembers members)
  | x => x

def Json.asNumbersItems : List Json → List Json
  | [] => []
  | x :: xs => x.asNumbers :: asNumbersItems xs

def Json.asNumbersMembers : List (String × Json) → List (String × Json)
  | [] => []
  | (k,v) :: ms => (k,v.asNumbers) :: asNumbersMembers ms

end

theorem asNumbersItems_eq (xs : List Json) : Json.asNumbersItems xs = xs.map Json.asNumbers := by
  induction xs with
  | nil => simp [Json.asNumbersItems]
  | cons x xs ih => simp [Json.asNumbersItems,ih]

theorem asNumbersMembers_eq (ms : List (String × Json)) :
    Json.asNumbersMembers ms = ms.map fun m => (m.1,m.2.asNumbers) := by
  induction ms with
  | nil => simp [Json.asNumbersMembers]
  | cons m ms ih => simp [Json.asNumbersMembers,ih]

theorem number_asNumbers (x : Json) : x.asNumbers.number = x.numeric := by
  cases x with
  | bool b => cases b <;> rfl
  | _ => simp [Json.asNumbers,Json.number,Json.numeric]

theorem lookup_asNumbers (ms : List (String × Json)) (key : String) :
    (Json.asNumbersMembers ms).lookup key = (ms.lookup key).map Json.asNumbers := by
  induction ms with
  | nil => simp [Json.asNumbersMembers]
  | cons m ms ih =>
    obtain ⟨k,v⟩ := m
    rw [Json.asNumbersMembers,List.lookup_cons,List.lookup_cons]
    cases key == k with
    | true => rfl
    | false => exact ih

theorem jsonEqItems_iff {xs ys : List Json} :
    jsonEqItems xs ys = true ↔ List.Forall₂ (fun x y => jsonEq x y = true) xs ys := by
  apply items_iff
  all_goals simp [jsonEqItems]

theorem jsonEqMembers_iff {ms ns : List (String × Json)} :
    jsonEqMembers ms ns = true ↔ ∀ m ∈ ms, ∃ w, ns.lookup m.1 = some w ∧ jsonEq m.2 w = true := by
  apply members_iff
  · simp [jsonEqMembers]
  · intro k v ms ns
    rw [jsonEqMembers]
    cases ns.lookup k <;> rfl

theorem jsonEq_number {x y : Json} {p : PyFloat} (h : x.number = some p) :
    jsonEq x y = true ↔ y.number = some p := by
  have hx : jsonEq x y = (x.number.bind fun p => y.number.map (p == ·)).getD false := by
    cases x with
    | int n => cases y <;> rfl
    | float q => cases y <;> rfl
    | _ => cases h
  rw [hx,h]
  cases y.number with
  | none => simp
  | some q => simp [eq_comm (a := p)]

theorem forall₂_imp_mem {R S : Json → Json → Prop} {xs ys : List Json} (h : ∀ x ∈ xs, ∀ y, R x y → S x y)
    (hr : List.Forall₂ R xs ys) : List.Forall₂ S xs ys := by
  have hboth := (List.forall₂_and_left xs ys).mpr ⟨h,hr⟩
  exact hboth.imp fun x y hxy => hxy.1 y hxy.2

/-- Python finds two values equal when they are the same with booleans as numbers. -/
theorem pyEq_iff {x : Json} (h : x.UniqueKeys) (y : Json) :
    pyEq x y = true ↔ jsonEq x.asNumbers y.asNumbers = true := by
  induction h generalizing y with
  | null => cases y <;> simp [Json.asNumbers,jsonEq,Json.number]
  | str s =>
    cases y with
    | str t => simp [Json.asNumbers,jsonEq,eq_comm (a := s)]
    | _ => simp [Json.asNumbers,jsonEq,Json.number]
  | arr h ih =>
    cases y with
    | arr ys =>
      rw [pyEq,pyEqItems_iff,Json.asNumbers,Json.asNumbers,jsonEq,jsonEqItems_iff,asNumbersItems_eq,
        asNumbersItems_eq,List.forall₂_map_left_iff,List.forall₂_map_right_iff]
      exact ⟨forall₂_imp_mem fun x hx y => (ih x hx y).mp,forall₂_imp_mem fun x hx y => (ih x hx y).mpr⟩
    | _ => simp [pyEq,Json.numeric,Json.asNumbers,jsonEq,Json.number]
  | @obj ms hk h ih =>
    cases y with
    | obj ns =>
      have hlen (us : List (String × Json)) : (Json.asNumbersMembers us).length = us.length := by
        rw [asNumbersMembers_eq,List.length_map]
      rw [pyEq,Json.asNumbers,Json.asNumbers,jsonEq,Bool.and_eq_true,Bool.and_eq_true,pyEqMembers_iff,
        jsonEqMembers_iff,hlen,hlen,asNumbersMembers_eq ms,List.forall_mem_map]
      refine and_congr_right fun _ => forall₂_congr fun m hm => ?_
      rw [lookup_asNumbers]
      cases ns.lookup m.1 with
      | none => simp
      | some w => simp [ih m hm w]
    | _ => simp [pyEq,Json.numeric,Json.asNumbers,jsonEq,Json.number]
  | _ => rw [pyEq_number rfl,jsonEq_number ((number_asNumbers _).trans rfl),number_asNumbers]

theorem numeric_of_number {x : Json} {p : PyFloat} (h : x.number = some p) : x.numeric = some p := by
  cases x with
  | int n => exact h
  | float q => exact h
  | _ => cases h

theorem pyEq_of_jsonEq {x : Json} (h : x.UniqueKeys) {y : Json} (hxy : jsonEq x y = true) : pyEq x y = true := by
  induction h generalizing y with
  | null =>
    cases y with
    | null => rfl
    | _ => cases hxy
  | bool b =>
    cases y with
    | bool c =>
      rw [jsonEq,beq_iff_eq] at hxy
      rw [hxy]
      exact (Json.UniqueKeys.bool c).refl
    | _ => cases hxy
  | int n
  | float q => exact (pyEq_number rfl).mpr (numeric_of_number ((jsonEq_number rfl).mp hxy))
  | str s =>
    cases y with
    | str t => exact hxy
    | _ => cases hxy
  | arr h ih =>
    cases y with
    | arr ys =>
      rw [jsonEq,jsonEqItems_iff] at hxy
      rw [pyEq,pyEqItems_iff]
      exact forall₂_imp_mem (fun x hx y => ih x hx) hxy
    | _ => cases hxy
  | obj hk h ih =>
    cases y with
    | obj ns =>
      rw [jsonEq,Bool.and_eq_true,jsonEqMembers_iff] at hxy
      rw [pyEq,Bool.and_eq_true,pyEqMembers_iff]
      refine ⟨hxy.1,fun m hm => ?_⟩
      obtain ⟨w,hw,he⟩ := hxy.2 m hm
      exact ⟨w,hw,ih m hm he⟩
    | _ => cases hxy

/-- The states of a path are the same: both absent, or present with one JSON value. -/
def sameState : Option Json → Option Json → Bool
  | none, none => true
  | some x, some y => jsonEq x y
  | _, _ => false

/-- States that differ and look alike to Python: absence and null, or values that differ
only in booleans against the numbers 0 and 1. -/
def Collapsed : Option Json → Option Json → Prop
  | none, none => False
  | none, some y => y = .null
  | some x, none => x = .null
  | some x, some y => jsonEq x y = false ∧ jsonEq x.asNumbers y.asNumbers = true

theorem pyEq_null_right {x : Json} : pyEq x .null = true ↔ x = .null := by
  cases x <;> simp [pyEq,Json.numeric]

/-- Python compares the two values as different exactly when the states differ, unless
they collapse. -/
theorem state_compared_iff {a : Option Json} (ha : (a.getD .null).UniqueKeys) (b : Option Json) :
    (pyEq (a.getD .null) (b.getD .null) = false ↔ sameState a b = false) ↔ ¬ Collapsed a b := by
  cases a with
  | none =>
    cases b with
    | none => simp [sameState,Collapsed]
    | some y =>
      rw [← Bool.not_eq_true,Option.getD_none,Option.getD_some,pyEq_null]
      simp [sameState,Collapsed]
  | some x =>
    cases b with
    | none =>
      rw [← Bool.not_eq_true,Option.getD_none,Option.getD_some,pyEq_null_right]
      simp [sameState,Collapsed]
    | some y =>
      rw [Option.getD_some] at ha
      have hsame := pyEq_of_jsonEq ha (y := y)
      rw [Option.getD_some,Option.getD_some,sameState,Collapsed,← pyEq_iff ha]
      cases hj : jsonEq x y with
      | true => simp [hsame hj]
      | false => simp

theorem mem_changesOn {last cur : Json} {paths : List String} {path : String} (hp : path ∈ paths) :
    (∃ r ∈ changesOn last cur paths, r.path = path) ↔ pyEq (valueAt last path) (valueAt cur path) = false := by
  constructor
  · rintro ⟨r,hr,rfl⟩
    obtain ⟨q,_,hq⟩ := List.mem_filterMap.mp hr
    rw [Option.ite_none_left_eq_some] at hq
    obtain ⟨hne,hq⟩ := hq
    cases hq
    exact Bool.eq_false_iff.mpr hne
  · intro hne
    refine ⟨⟨path,valueAt last path,valueAt cur path⟩,List.mem_filterMap.mpr ⟨path,hp,?_⟩,rfl⟩
    rw [if_neg (Bool.eq_false_iff.mp hne)]

theorem Config.valueAt_eq (c : Config) {path : String} (hp : path ∈ watchedPaths) :
    valueAt c.data path = (c.data.atKeys (pathKeys path)).getD .null := by
  have hvalue := c.value_ok hp
  rw [getValueFromPath,followKeys_atKeys (c.comparable path hp)] at hvalue
  exact (Except.ok.inj hvalue).symm

/-- For every two configurations passed one after the other to check_for_changes and every
watched path: the path is reported exactly when its JSON state differs, unless the two
states collapse, and then it is not. -/
theorem report_exact_iff (c d : Config) (path : String) (hp : path ∈ watchedPaths) :
    ∃ reports, (∀ last first, checkForChanges last c.data = .ok first →
        checkForChanges first.2 d.data = .ok (reports,d.data)) ∧
      (((∃ r ∈ reports, r.path = path) ↔
        sameState (c.data.atKeys (pathKeys path)) (d.data.atKeys (pathKeys path)) = false) ↔
        ¬ Collapsed (c.data.atKeys (pathKeys path)) (d.data.atKeys (pathKeys path))) := by
  refine ⟨changesOn c.data d.data watchedPaths,?_,?_⟩
  · rintro last ⟨changes,stored⟩ hfirst
    obtain rfl := checkForChanges_stores hfirst
    exact c.check_eq d
  · have hunique := c.value_unique hp
    rw [c.valueAt_eq hp] at hunique
    rw [mem_changesOn hp,c.valueAt_eq hp,d.valueAt_eq hp]
    exact state_compared_iff hunique _

/-- A configuration with a value under key1 alone. -/
def keyed (value : Json) (h : value.UniqueKeys) : Config where
  data := .obj [("key1",value)]
  unique := by
    refine .obj ?_ ?_
    · simp
    · simp only [List.forall_mem_cons]
      exact ⟨h,by simp⟩
  comparable := by
    apply comparable_obj
    intro v hv
    cases hv

/-- From the number 1 to 2, which is no collapse. -/
theorem report_exact_iff_numbers : "key1" ∈ watchedPaths ∧
    ∃ reports, checkForChanges (keyed (.int 1) (.int 1)).data (keyed (.int 2) (.int 2)).data =
        .ok (reports,(keyed (.int 2) (.int 2)).data) ∧ ∃ r ∈ reports, r.path = "key1" := by
  have hp : "key1" ∈ watchedPaths := List.mem_cons_self
  obtain ⟨reports,hsecond,hexact⟩ :=
    report_exact_iff (keyed (.int 1) (.int 1)) (keyed (.int 2) (.int 2)) "key1" hp
  refine ⟨hp,reports,hsecond .null ([],_) rfl,(hexact.mpr ?_).mpr rfl⟩
  rintro ⟨_,hlike⟩
  cases hlike

/-- From true to 1 nothing is reported. -/
theorem boolean_change_unreported :
    checkEach .null [(keyed (.bool true) (.bool true)).data,(keyed (.int 1) (.int 1)).data] =
      .ok ([],(keyed (.int 1) (.int 1)).data) ∧
    sameState ((keyed (.bool true) (.bool true)).data.atKeys (pathKeys "key1"))
      ((keyed (.int 1) (.int 1)).data.atKeys (pathKeys "key1")) = false :=
  ⟨rfl,rfl⟩

end MyCpp.ConfigWatch
