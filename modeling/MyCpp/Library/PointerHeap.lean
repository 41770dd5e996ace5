import Mathlib.Logic.Function.Basic

/-! A heap of records behind nullable pointers. Reading, writing or freeing anything but a
live block stops the program with a fault; an address may be reused once it is freed. -/
namespace MyCpp.PointerHeap
variable {A C : Type*}

/-- Live blocks by address; an address without one was never allocated or was freed. -/
abbrev Heap (A C : Type*) := A → Option C

/-- Why a program did not return: a bad access, a bad free, or a loop that is still
running after the iterations it was given. -/
inductive Fault where
  | nullPointer
  | danglingPointer
  | invalidFree
  | stillRunning
  deriving DecidableEq

namespace Heap

def load (h : Heap A C) : Option A → Except Fault C
  | none => .error .nullPointer
  | some a => match h a with
    | some c => .ok c
    | none => .error .danglingPointer

variable [DecidableEq A]

/-- Allocation at an address that is not live; the block holds arbitrary contents. -/
def malloc (h : Heap A C) (a : A) (contents : C) : Heap A C := Function.update h a (some contents)

def modify (h : Heap A C) (p : Option A) (f : C → C) : Except Fault (Heap A C) :=
  match p with
  | none => .error .nullPointer
  | some a => match h a with
    | some c => .ok (Function.update h a (some (f c)))
    | none => .error .danglingPointer

def free (h : Heap A C) : Option A → Except Fault (Heap A C)
  | none => .ok h
  | some a => match h a with
    | some _ => .ok (Function.update h a none)
    | none => .error .invalidFree

omit [DecidableEq A] in
theorem load_live {h : Heap A C} {a : A} {c : C} (ha : h a = some c) : h.load (some a) = .ok c := by
  simp [load,ha]

theorem modify_live {h : Heap A C} {a : A} {c : C} (ha : h a = some c) (f : C → C) :
    h.modify (some a) f = .ok (Function.update h a (some (f c))) := by
  simp [modify,ha]

theorem free_live {h : Heap A C} {a : A} {c : C} (ha : h a = some c) :
    h.free (some a) = .ok (Function.update h a none) := by
  simp [free,ha]

theorem update_restores {h : Heap A C} {a c : A} {n m : Option C} (hc : h c = n) (ha : h a = m)
    (hca : c ≠ a) (x y : Option C) :
    Function.update (Function.update (Function.update (Function.update h c x) a y) c n) a m = h := by
  rw [Function.update_comm hca.symm,Function.update_idem,Function.update_idem,← hc,Function.update_eq_self,
    ← ha,Function.update_eq_self]

end Heap
end MyCpp.PointerHeap
