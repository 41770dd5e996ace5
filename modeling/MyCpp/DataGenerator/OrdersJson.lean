import Mathlib.Algebra.Order.Ring.Nat
import Mathlib.Data.List.Nodup
import MyCpp.DataGenerator.XmlSnippets

/-! generate_large_json of generate_json.py, which makes the file that the broadcast service sends. All
random draws are an input; a price, which is a float, is taken as it is drawn. -/
namespace MyCpp.DataGenerator

/-- random.randint, from any number drawn. -/
def randint (low high draw : Nat) : Nat := low + draw % (high + 1 - low)

theorem randint_bounds {low high : Nat} (h : low ≤ high) (draw : Nat) :
    low ≤ randint low high draw ∧ randint low high draw ≤ high := by
  have hlt := Nat.mod_lt draw (show 0 < high + 1 - low by omega)
  rw [randint]
  omega

def alphanumeric : Text := asciiLetters ++ "0123456789".toList

/-- random_string, from the choices of random.choices. -/
def randomString (choice : Nat → Fin 62) (length : Nat) : Text :=
  (List.range length).map fun i => alphanumeric.getD (choice i) 'a'

def digits (n : Nat) : Text := n.repr.toList

structure Order (Price : Type) where
  order_id : Nat
  product : Text
  quantity : Nat
  price : Price

structure Address where
  street : Text
  city : Text
  zipcode : Text

structure User (Price : Type) where
  id : Nat
  name : Text
  email : Text
  address : Address
  phone : Text
  orders : List (Order Price)

structure OrderDraws (Price : Type) where
  product : Nat → Fin 62
  quantity : Nat
  price : Price

structure UserDraws where
  name : Nat → Fin 62
  houseNumber : Nat
  street : Nat → Fin 62
  city : Nat → Fin 62
  zipcode : Nat
  exchange : Nat
  line : Nat

section Generate
variable {Price : Type} (userDraws : Nat → UserDraws) (orderDraws : Nat → Nat → OrderDraws Price)

/-- The body of the inner loop. -/
def makeOrder (orders_per_user i j : Nat) : Order Price where
  order_id := i * orders_per_user + j + 1
  product := randomString (orderDraws i j).product 15
  quantity := randint 1 5 (orderDraws i j).quantity
  price := (orderDraws i j).price

def email (i : Nat) : Text := "user".toList ++ digits (i+1) ++ "@example.com".toList

def phone (d : UserDraws) : Text :=
  "555-".toList ++ digits (randint 100 999 d.exchange) ++ "-".toList ++ digits (randint 1000 9999 d.line)

/-- The body of the outer loop. -/
def makeUser (orders_per_user i : Nat) : User Price where
  id := i + 1
  name := randomString (userDraws i).name 10
  email := email i
  address := {
    street := digits (randint 1 9999 (userDraws i).houseNumber) ++ " ".toList ++
      randomString (userDraws i).street 10 ++ " St".toList
    city := randomString (userDraws i).city 8
    zipcode := digits (randint 10000 99999 (userDraws i).zipcode) }
  phone := phone (userDraws i)
  orders := (List.range orders_per_user).map (makeOrder orderDraws orders_per_user i)

def generateLargeJson (num_users orders_per_user : Nat) : List (User Price) :=
  (List.range num_users).map (makeUser userDraws orderDraws orders_per_user)

theorem digits_injective : Function.Injective digits := by
  intro m n h
  rw [digits,digits,Nat.toList_repr,Nat.toList_repr] at h
  rw [← Nat.ofDigitChars_ten_toDigits (n := m),h,Nat.ofDigitChars_ten_toDigits]

theorem digits_length {n k : Nat} (hk : 0 < k) (hlow : 10 ^ k ≤ n) (hhigh : n < 10 ^ (k+1)) :
    (digits n).length = k + 1 := by
  have hle := (Nat.length_repr_le_iff (Nat.succ_pos k)).mpr hhigh
  have hlt : ¬ n.repr.length ≤ k := fun h => Nat.not_lt.mpr hlow ((Nat.length_repr_le_iff hk).mp h)
  rw [digits,String.length_toList]
  omega

theorem email_injective : Function.Injective email := by
  intro i j h
  have hdigits := List.append_cancel_right h
  exact Nat.succ_injective (digits_injective (List.append_cancel_left hdigits))

theorem phone_length (d : UserDraws) : (phone d).length = 12 := by
  obtain ⟨hlow,hhigh⟩ := randint_bounds (show 100 ≤ 999 by decide) d.exchange
  obtain ⟨hlow',hhigh'⟩ := randint_bounds (show 1000 ≤ 9999 by decide) d.line
  have hexchange := digits_length (k := 2) (by decide) hlow (Nat.lt_succ_of_le hhigh)
  have hline := digits_length (k := 3) (by decide) hlow' (Nat.lt_succ_of_le hhigh')
  rw [phone,List.length_append,List.length_append,List.length_append,hexchange,hline]
  rfl

/-- The orders of the users before one, and of the user himself. -/
theorem order_ids (num_users orders_per_user : Nat) :
    ((generateLargeJson userDraws orderDraws num_users orders_per_user).flatMap User.orders).map Order.order_id =
      List.range' 1 (num_users * orders_per_user) := by
  induction num_users with
  | zero =>
    rw [Nat.zero_mul]
    rfl
  | succ n ih =>
    have hlast : (makeUser userDraws orderDraws orders_per_user n).orders.map Order.order_id =
        List.range' (1 + n * orders_per_user) orders_per_user := by
      rw [makeUser,List.map_map,List.range'_eq_map_range]
      refine List.map_congr_left fun j _ => ?_
      simp only [Function.comp_apply,makeOrder]
      omega
    rw [generateLargeJson,List.range_succ,List.map_append,List.flatMap_append,List.map_append,
      ← generateLargeJson,ih,List.map_singleton,List.flatMap_singleton,hlast,Nat.succ_mul,List.range'_append_1]

/-- What the service expects of the file: users and orders are numbered from 1 without a gap, no two
users have the same email, and every field has the form that it should. -/
structure Consistent (num_users orders_per_user : Nat) (users : List (User Price)) : Prop where
  ids : users.map User.id = List.range' 1 num_users
  emails : (users.map User.email).Nodup
  order_ids : (users.flatMap User.orders).map Order.order_id = List.range' 1 (num_users * orders_per_user)
  orders : ∀ u ∈ users, u.orders.length = orders_per_user
  zipcodes : ∀ u ∈ users, u.address.zipcode.length = 5
  phones : ∀ u ∈ users, u.phone.length = 12
  quantities : ∀ u ∈ users, ∀ o ∈ u.orders, 1 ≤ o.quantity ∧ o.quantity ≤ 5

theorem generated_users_consistent (num_users orders_per_user : Nat) :
    Consistent num_users orders_per_user
      (generateLargeJson userDraws orderDraws num_users orders_per_user) where
  ids := by
    rw [generateLargeJson,List.map_map,List.range'_eq_map_range]
    exact List.map_congr_left fun i _ => Nat.add_comm i 1
  emails := by
    rw [generateLargeJson,List.map_map]
    exact List.nodup_range.map email_injective
  order_ids := order_ids userDraws orderDraws num_users orders_per_user
  orders := by
    intro u hu
    obtain ⟨i,_,rfl⟩ := List.mem_map.mp hu
    rw [makeUser,List.length_map,List.length_range]
  zipcodes := by
    intro u hu
    obtain ⟨i,_,rfl⟩ := List.mem_map.mp hu
    obtain ⟨hlow,hhigh⟩ := randint_bounds (show 10000 ≤ 99999 by decide) (userDraws i).zipcode
    exact digits_length (k := 4) (by decide) hlow (Nat.lt_succ_of_le hhigh)
  phones := by
    intro u hu
    obtain ⟨i,_,rfl⟩ := List.mem_map.mp hu
    exact phone_length _
  quantities := by
    intro u hu o ho
    obtain ⟨i,_,rfl⟩ := List.mem_map.mp hu
    obtain ⟨j,_,rfl⟩ := List.mem_map.mp ho
    exact randint_bounds (show 1 ≤ 5 by decide) _

end Generate
end MyCpp.DataGenerator
