import Mathlib.Algebra.Order.Ring.Nat
import Mathlib.Data.List.Sort

/-! The routines of kaprekar.cxx. Unsigned values are naturals below 2^32 with every
operation that can wrap reduced; the loop is a machine whose states show each l_num. -/
namespace MyCpp.Kaprekar

def DECIMAL : Nat := 10

def UINT : Nat := 2^32

/-- Digits are appended to `v`, least significant first. -/
@[semireducible] def breakNum (num : Nat) (v : List Nat) : List Nat :=
  if num ≠ 0 then breakNum (num / 10) (v ++ [num % 10]) else v
termination_by num
decreasing_by exact Nat.div_lt_self (Nat.pos_of_ne_zero ‹num ≠ 0›) (by decide)

/-- One pass of the loop of makeNum over the pair of num and placeVal. -/
def addDigit (acc : Nat × Nat) (d : Nat) : Nat × Nat :=
  ((acc.1 + d * acc.2) % UINT,acc.2 * DECIMAL % UINT)

def makeNum (v : List Nat) : Nat := (v.foldl addDigit (0,1)).1

/-- The iterator std::adjacent_find returns, as what it leads to; the end is `[]`. -/
def adjacentFind (pred : Nat → Nat → Bool) : List Nat → List Nat
  | x :: y :: rest => if pred x y then x :: y :: rest else adjacentFind pred (y :: rest)
  | _ => []

def equalDigitsMessage : String :=
  "all digits are equal , give another input with atleast one digit not same\n"

/-- What getAscDscNum works on: the digits, with one zero for a three-digit number. -/
def paddedDigits (inputNum : Nat) : List Nat :=
  let v := breakNum inputNum []
  if v.length = 3 then v ++ [0] else v

/-- The pair of ascNum and dscNum, or the line printed before exit(1). -/
def getAscDscNum (inputNum : Nat) : Except String (Nat × Nat) :=
  let v := paddedDigits inputNum
  if adjacentFind (· != ·) v = [] then .error equalDigitsMessage
  else
    let v := v.insertionSort (· ≥ ·)
    .ok (makeNum v,makeNum v.reverse)

/-- The next statement of KaprekarIterations: a call of getAscDscNum, the loop test, or
none because the function returned or the process ended. -/
inductive Pc where
  | getAscDscNum
  | whileTest
  | returned (iterations : Nat)
  | exited (status : Nat)
  deriving DecidableEq

structure Run where
  pc : Pc
  num_iter : Nat
  l_num : Nat
  ascNum : Nat
  dscNum : Nat
  out : List String

def iterationLine (num_iter dscNum ascNum l_num : Nat) : String :=
  toString num_iter ++ ")" ++ toString dscNum ++ "-" ++ toString ascNum ++ "=" ++ toString l_num ++ "\n"

def ruleLine : String := "----------------------------------------\n"

/-- The body of the while loop up to its call of getAscDscNum. -/
def loopBody (r : Run) : Run :=
  let l_num := (r.dscNum + (UINT - r.ascNum)) % UINT
  let num_iter := (r.num_iter + 1) % UINT
  { r with
    pc := .getAscDscNum
    num_iter := num_iter
    l_num := l_num
    out := r.out ++ [iterationLine num_iter r.dscNum r.ascNum l_num] }

def step (r : Run) : Run :=
  match r.pc with
  | .getAscDscNum => match getAscDscNum r.l_num with
    | .ok (ascNum,dscNum) => { r with pc := .whileTest, ascNum := ascNum, dscNum := dscNum }
    | .error line => { r with pc := .exited 1, out := r.out ++ [line] }
  | .whileTest =>
    if r.l_num ≠ 6174 then loopBody r
    else { r with pc := .returned r.num_iter, out := r.out ++ [ruleLine] }
  | .returned _ => r
  | .exited _ => r

/-- The state of a call after a number of statements. -/
def KaprekarIterations (num : Nat) (steps : Nat) : Run :=
  step^[steps] ⟨.getAscDscNum,0,num,0,0,[]⟩

end MyCpp.Kaprekar
