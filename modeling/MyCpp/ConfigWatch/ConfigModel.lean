import MyCpp.Library.TransitionSystem

/-! config_handler.py: the values json.load returns with the Python operations used on
them, and the watch loop against a writer of the file and the queue of the kernel. -/
namespace MyCpp.ConfigWatch
open TransitionSystem

/-- A float that is not NaN. -/
inductive PyFloat where
  | finite (q : Rat)
  | inf (negative : Bool)
  deriving DecidableEq

/-- A value of json.load. None is `null`; an object lists its members, one for each key. -/
inductive Json where
  | null
  | bool (b : Bool)
  | int (n : Int)
  | float (x : PyFloat)
  | str (s : String)
  | arr (items : List Json)
  | obj (members : List (String × Json))

/-- The number that a bool, an int or a float compares as. -/
def Json.numeric : Json → Option PyFloat
  | .bool b => some (.finite (if b then 1 else 0))
  | .int n => some (.finite n)
  | .float x => some x
  | _ => none

mutual

/-- The operator == of Python. -/
def pyEq : Json → Json → Bool
  | .null, .null => true
  | .str s, .str t => s == t
  | .arr xs, .arr ys => pyEqItems xs ys
  | .obj ms, .obj ns => ms.length == ns.length && pyEqMembers ms ns
  | x, y => match x.numeric, y.numeric with
    | some p, some q => p == q
    | _, _ => false

def pyEqItems : List Json → List Json → Bool
  | [], [] => true
  | x :: xs, y :: ys => pyEq x y && pyEqItems xs ys
  | _, _ => false

/-- Every member has a counterpart under its key. -/
def pyEqMembers : List (String × Json) → List (String × Json) → Bool
  | [], _ => true
  | (k,v) :: ms, ns => (match ns.lookup k with
    | some w => pyEq v w
    | none => false) && pyEqMembers ms ns

end

def Json.typeName : Json → String
  | .null => "NoneType"
  | .bool _ => "bool"
  | .int _ => "int"
  | .float _ => "float"
  | .str _ => "str"
  | .arr _ => "list"
  | .obj _ => "dict"

structure AttributeError where
  text : String
  deriving DecidableEq

def Json.get (data : Json) (key : String) : Except AttributeError Json :=
  match data with
  | .obj members => .ok ((members.lookup key).getD .null)
  | other => .error ⟨"'" ++ other.typeName ++ "' object has no attribute 'get'"⟩

/-- str.split('.') on the characters. -/
def splitDots : List Char → List (List Char)
  | [] => [[]]
  | c :: cs => if c = '.' then [] :: splitDots cs else
    match splitDots cs with
    | [] => [[c]]
    | key :: keys => (c :: key) :: keys

def pathKeys (path : String) : List String := (splitDots path.toList).map String.ofList

/-- The loop over the keys, left early at None. -/
def followKeys (data : Json) : List String → Except AttributeError Json
  | [] => .ok data
  | key :: keys => do
    match ← data.get key with
    | .null => .ok .null
    | value => followKeys value keys

def getValueFromPath (data : Json) (path : String) : Except AttributeError Json :=
  followKeys data (pathKeys path)

structure Change where
  path : String
  old : Json
  new : Json

def watchedPaths : List String := ["key1","nested.key2"]

def compareLoop (lastConfig currentConfig : Json) : List String → Except AttributeError (List Change)
  | [] => .ok []
  | path :: paths => do
    let old ← getValueFromPath lastConfig path
    let new ← getValueFromPath currentConfig path
    let changes ← compareLoop lastConfig currentConfig paths
    .ok (if pyEq old new then changes else ⟨path,old,new⟩ :: changes)

/-- The changes and the new last_config. -/
def checkForChanges (lastConfig currentConfig : Json) : Except AttributeError (List Change × Json) :=
  match lastConfig with
  | .null => .ok ([],currentConfig)
  | lastConfig => do
    let changes ← compareLoop lastConfig currentConfig watchedPaths
    .ok (changes,currentConfig)

/-- The next statement of the watch loop: `events n` has n drained events before it, and
an exception other than KeyboardInterrupt ends the process. -/
inductive Pc where
  | getmtime
  | testMtime (currentMtime : Int)
  | pollLoad
  | readEvents
  | events (pending : Nat)
  | aborted (e : AttributeError)
  deriving DecidableEq

/-- The file, the MODIFY events the kernel holds, and the watcher. `loaded` records that a
configuration has been loaded. -/
structure Watcher where
  content : Json
  mtime : Int
  queued : Nat := 0
  pc : Pc := .getmtime
  lastConfig : Json := .null
  lastMtime : Option Int := none
  loaded : Bool := false
  reports : List Change := []

/-- A write of valid JSON. The kernel may merge its event with one that is still queued;
without a watcher there is no watch. -/
def write (content : Json) (mtime : Int) (merged : Bool) (s : Watcher) : Watcher :=
  let s := { s with content := content, mtime := mtime }
  match s.pc with
  | .aborted _ => s
  | _ => { s with queued := if merged ∧ 0 < s.queued then s.queued else s.queued + 1 }

/-- load_json and check_for_changes with the report of the changes. -/
def loadAndCheck (next : Pc) (s : Watcher) : Watcher :=
  match checkForChanges s.lastConfig s.content with
  | .ok (changes,lastConfig) =>
    { s with lastConfig := lastConfig, loaded := true, reports := s.reports ++ changes, pc := next }
  | .error e => { s with pc := .aborted e, queued := 0 }

/-- One step of the watch loop; the step past the last event includes the sleep. -/
def watch (s : Watcher) : Option Watcher :=
  match s.pc with
  | .getmtime => some { s with pc := .testMtime s.mtime }
  | .testMtime currentMtime =>
    if s.lastMtime = none ∨ some currentMtime ≠ s.lastMtime then
      some { s with lastMtime := some currentMtime, pc := .pollLoad }
    else some { s with pc := .readEvents }
  | .pollLoad => some (loadAndCheck .readEvents s)
  | .readEvents => some { s with pc := .events s.queued, queued := 0 }
  | .events (pending + 1) => some (loadAndCheck (.events pending) s)
  | .events 0 => some { s with pc := .getmtime }
  | .aborted _ => none

inductive Action where
  | write (content : Json) (mtime : Int) (merged : Bool)
  | watch

/-- The watcher with its watch in place, before the first pass of the loop. -/
def system : System Watcher Action where
  init s := ∃ content mtime, s = { content := content, mtime := mtime }
  step s
    | .write content mtime merged => some (write content mtime merged s)
    | .watch => watch s

end MyCpp.ConfigWatch
