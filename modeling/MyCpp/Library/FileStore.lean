import Mathlib.Logic.Function.Basic

/-! Files by path, with the three operations a log writer needs. Renaming follows POSIX: a
file that the new name led to is replaced. -/
namespace MyCpp.FileStore
variable {P C : Type*} [DecidableEq P]

/-- Contents by path; a path without a file leads to `none`. -/
abbrev Files (P C : Type*) := P → Option C

namespace Files

def rename (f : Files P C) (old new : P) : Files P C :=
  match f old with
  | some c => Function.update (Function.update f old none) new (some c)
  | none => f

/-- Opening for writing at the end creates a file that is not there. -/
def openAppend (f : Files P C) (p : P) (empty : C) : Files P C :=
  Function.update f p (some ((f p).getD empty))

def append [Append C] (f : Files P C) (p : P) (text : C) : Files P C :=
  Function.update f p ((f p).map (· ++ text))

theorem rename_target {f : Files P C} {old : P} {c : C} (h : f old = some c) (new : P) :
    f.rename old new new = some c := by
  simp [rename,h]

theorem rename_source {f : Files P C} {old new : P} (hne : old ≠ new) : f.rename old new old = none := by
  cases h : f old with
  | some c => simp [rename,h,hne]
  | none => simp [rename,h]

theorem rename_other (f : Files P C) {old new p : P} (ho : p ≠ old) (hn : p ≠ new) :
    f.rename old new p = f p := by
  cases h : f old with
  | some c => simp [rename,h,ho,hn]
  | none => simp [rename,h]

@[simp] theorem openAppend_self (f : Files P C) (p : P) (empty : C) :
    f.openAppend p empty p = some ((f p).getD empty) :=
  Function.update_self ..

theorem openAppend_other (f : Files P C) {p q : P} (h : q ≠ p) (empty : C) : f.openAppend p empty q = f q :=
  Function.update_of_ne h ..

@[simp] theorem append_self [Append C] (f : Files P C) (p : P) (text : C) :
    f.append p text p = (f p).map (· ++ text) :=
  Function.update_self ..

theorem append_other [Append C] (f : Files P C) {p q : P} (h : q ≠ p) (text : C) : f.append p text q = f q :=
  Function.update_of_ne h ..

end Files
end MyCpp.FileStore
