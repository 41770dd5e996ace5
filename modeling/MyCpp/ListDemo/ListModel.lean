import MyCpp.Library.LinkedSegment
import MyCpp.Library.TransitionSystem

/-! The linked list of ListDemo.c over an explicit heap. Every pointer access may fault and
the two while loops run on a number of iterations, so faults and divergence are visible. -/
namespace MyCpp.ListDemo
open PointerHeap LinkedSegment TransitionSystem

abbrev Addr := Nat
abbrev Node := Cell Addr Int32

/-- The heap with the two global pointers; null is `none`. -/
structure ListState where
  heap : Heap Addr Node := fun _ => none
  head : Option Addr := none
  currentNode : Option Addr := none

def setCurrentNode (s : ListState) (nextNode : Option Addr) : ListState :=
  { s with currentNode := nextNode }

def getCurrentNode (s : ListState) : Option Addr := s.currentNode

/-- malloc returned `a`, whose block still holds `garbage`. -/
def initilizeList (a : Addr) (garbage : Node) (s : ListState) : Except Fault ListState := do
  let head := some a
  let heap := s.heap.malloc a garbage
  let heap ← heap.modify head fun n => { n with data := -1 }
  let heap ← heap.modify head fun n => { n with prev := none }
  let heap ← heap.modify head fun n => { n with next := none }
  .ok (setCurrentNode { s with heap := heap, head := head } head)

def insert (a : Addr) (garbage : Node) (value : Int32) (s : ListState) : Except Fault ListState := do
  let newNode := some a
  let heap := s.heap.malloc a garbage
  let currentNode := getCurrentNode s
  let heap ← heap.modify currentNode fun n => { n with next := newNode }
  let heap ← heap.modify newNode fun n => { n with prev := currentNode }
  let heap ← heap.modify newNode fun n => { n with data := value }
  let heap ← heap.modify newNode fun n => { n with next := none }
  .ok (setCurrentNode { s with heap := heap } newNode)

/-- The while loop of search, from the node `latest` points to. -/
def searchFrom (heap : Heap Addr Node) (value : Int32) : Nat → Option Addr → Except Fault (Option Addr)
  | 0, _ => .error .stillRunning
  | _ + 1, none => .ok none
  | fuel + 1, some latest => do
    let node ← heap.load (some latest)
    if node.data ≠ -1 ∧ node.data = value then .ok (some latest)
    else searchFrom heap value fuel node.prev

def search (fuel : Nat) (value : Int32) (s : ListState) : Except Fault (Option Addr) :=
  searchFrom s.heap value fuel (getCurrentNode s)

/-- The relinking part of deleteNode for the node found, whose fields are `node`. The
second branch writes through a null `nodeBefore`. -/
def unlinkNode (node : Node) (s : ListState) : Except Fault ListState :=
  if node.prev ≠ none then do
    let nodeAfter := node.next
    let nodeBefore := node.prev
    let heap ← s.heap.modify nodeBefore fun n => { n with next := nodeAfter }
    if nodeAfter ≠ none then do
      let heap ← heap.modify nodeAfter fun n => { n with prev := nodeBefore }
      .ok { s with heap := heap }
    else .ok (setCurrentNode { s with heap := heap } nodeBefore)
  else if node.next = none then do
    let nodeBefore := node.prev
    let heap ← s.heap.modify nodeBefore fun n => { n with next := none }
    .ok (setCurrentNode { s with heap := heap } nodeBefore)
  else .ok s

def deleteNode (fuel : Nat) (value : Int32) (s : ListState) : Except Fault ListState := do
  match ← search fuel value s with
  | none => .ok s
  | some nodeWithVal => do
    let node ← s.heap.load (some nodeWithVal)
    let s ← unlinkNode node s
    let heap ← s.heap.free (some nodeWithVal)
    .ok { s with heap := heap }

/-- The line that printf writes for one value. -/
def dataLine (data : Int32) : String := toString data.toInt ++ "\n"

def ruleLine : String := "-----------------------------------\n"

/-- The while loop of printList and the line after it. -/
def printFrom (heap : Heap Addr Node) : Nat → Option Addr → Except Fault (List String)
  | 0, _ => .error .stillRunning
  | _ + 1, none => .ok [ruleLine]
  | fuel + 1, some currentNode => do
    let node ← heap.load (some currentNode)
    let rest ← printFrom heap fuel node.prev
    .ok (if node.data ≠ -1 then dataLine node.data :: rest else rest)

def printList (fuel : Nat) (s : ListState) : Except Fault (List String) :=
  printFrom s.heap fuel (getCurrentNode s)

/-- Calls of the list interface. The address and the old contents of a new block are
malloc's choice, and a deletion is given the iterations its search may take. -/
inductive Call where
  | insert (a : Addr) (garbage : Node) (value : Int32)
  | deleteNode (fuel : Nat) (value : Int32)

def step (s : ListState) : Call → Option ListState
  | .insert a garbage value => if (s.heap a).isNone then (insert a garbage value s).toOption else none
  | .deleteNode fuel value => (deleteNode fuel value s).toOption

/-- Lists reachable from initilizeList on a heap without live nodes. -/
def system : System ListState Call where
  init s := ∃ a garbage, initilizeList a garbage {} = .ok s
  step := step

end MyCpp.ListDemo
