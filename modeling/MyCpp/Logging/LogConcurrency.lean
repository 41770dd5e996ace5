import MyCpp.Library.CriticalSection
import MyCpp.Logging.LogBounds
import MyCpp.Logging.LogFallback

/-! One Logger called from several threads. A call takes logMutex and then works step by step: it
makes its record, looks at the size of the file, closes, renames and reopens it, and writes. A step
that asks for a local time that does not exist ends the process and is not taken. -/
namespace MyCpp.Logging
open FileStore CriticalSection TransitionSystem

/-- What a call that holds logMutex does next. -/
inductive LogPlace where
  | format (call : Call)
  | print (line : Text)
  | stat (line : Text)
  | close (line : Text)
  | rename (line : Text)
  | reopen (line : Text)
  | write (line : Text)

section Zone
variable (localtime : Int → Option Tm)

/-- One step under the lock. Of the moment each step uses only what it asks for: the clock, or the
outcome of its system call. -/
def logMove : LogPlace → Logger → Moment → Option (Logger × Option LogPlace)
  | .format call, l, m => (record localtime m call).map fun line =>
    (l,some (if l.toFile then .stat line else .print line))
  | .print line, l, _ => some ({ l with cout := l.cout ++ [line ++ "\n".toList] },none)
  | .stat line, l, _ => match l.files l.logFilePath with
    | some content => some (l,some (if l.maxFileSize ≤ content.length then .close line else .write line))
    | none => some (l,some (.write line))
  | .close line, l, _ => some ({ l with is_open := false },some (.rename line))
  | .rename line, l, m => (getTimestamp localtime m.rotationTime).map fun stamp =>
    let newFileName := l.logFilePath ++ ".".toList ++ stamp
    (if m.renameOk then
        { l with files := l.files.rename l.logFilePath newFileName, rotated := l.rotated ++ [newFileName] }
      else l,some (.reopen line))
  | .reopen line, l, m =>
    some (if m.openOk then { l with files := l.files.openAppend l.logFilePath [], is_open := true }
      else { l with cerr := l.cerr ++ ["Failed to open new log file after rotation!\n".toList] },
      some (.write line))
  | .write line, l, _ =>
    some (if l.is_open then { l with files := l.files.append l.logFilePath (line ++ "\n".toList) } else l,none)

/-- The calls of a logger with a given level: the template overload takes the mutex only when the
level test is passed. -/
def guardedLog (currentLevel : LogLevel) : Guarded Logger Call LogPlace Moment where
  takes := passes currentLevel
  enter := .format
  move := logMove localtime

/-- What has been done so far to the logger that the call found. -/
def Progress (call : Call) (l : Logger) : LogPlace → Logger → Prop
  | .format c, k => c = call ∧ k = l
  | .print line, k => (∃ m, record localtime m call = some line) ∧ k = l ∧ l.toFile = false
  | .stat line, k => (∃ m, record localtime m call = some line) ∧ k = l ∧ l.toFile = true
  | .close line, k => (∃ m, record localtime m call = some line) ∧ k = l ∧ l.toFile = true ∧ Full l
  | .rename line, k =>
    (∃ m, record localtime m call = some line) ∧ k = { l with is_open := false } ∧ l.toFile = true ∧ Full l
  | .reopen line, k => ∃ m stamp, record localtime m call = some line ∧
      getTimestamp localtime m.rotationTime = some stamp ∧ l.toFile = true ∧ Full l ∧
      k = if m.renameOk then { l with
          files := l.files.rename l.logFilePath (rotatedName l.logFilePath stamp)
          rotated := l.rotated ++ [rotatedName l.logFilePath stamp]
          is_open := false }
        else { l with is_open := false }
  | .write line, k =>
    ∃ m, record localtime m call = some line ∧ l.toFile = true ∧ rotateLogFile localtime m l = some k

theorem record_congr {m m' : Moment} (h : m'.now = m.now) (call : Call) :
    record localtime m' call = record localtime m call := by
  cases call with
  | log level message fileName lineNumber => simp only [record,recordHeader,h]
  | logTime level timeValue fileName lineNumber => simp only [record,recordHeader,h]

variable {localtime} {call : Call} {l k k' : Logger}

private theorem Progress.format {c : Call} {m : Moment} {next : LogPlace}
    (h : Progress localtime call l (.format c) k)
    (hmove : logMove localtime (.format c) k m = some (k',some next)) : Progress localtime call l next k' := by
  obtain ⟨rfl,rfl⟩ := h
  obtain ⟨line,hline,hnext⟩ := Option.map_eq_some_iff.mp hmove
  cases hfile : k.toFile with
  | true =>
    rw [hfile,if_pos rfl] at hnext
    cases hnext
    exact ⟨⟨m,hline⟩,rfl,hfile⟩
  | false =>
    rw [hfile,if_neg Bool.false_ne_true] at hnext
    cases hnext
    exact ⟨⟨m,hline⟩,rfl,hfile⟩

private theorem Progress.stat {line : Text} {m : Moment} {next : LogPlace}
    (h : Progress localtime call l (.stat line) k)
    (hmove : logMove localtime (.stat line) k m = some (k',some next)) : Progress localtime call l next k' := by
  obtain ⟨⟨m',hline⟩,rfl,hfile⟩ := h
  by_cases hfull : Full k
  · obtain ⟨content,hc,hs⟩ := hfull
    rw [Option.mem_def] at hc
    simp only [logMove,hc,if_pos hs] at hmove
    cases hmove
    exact ⟨⟨m',hline⟩,rfl,hfile,content,hc,hs⟩
  · have hnext : (k',next) = (k,.write line) := by
      simp only [logMove] at hmove
      split at hmove
      · rename_i content hc
        rw [if_neg fun hs => hfull ⟨content,hc,hs⟩] at hmove
        cases hmove
        rfl
      · cases hmove
        rfl
    cases hnext
    exact ⟨m',hline,hfile,rotate_not_full hfull m'⟩

private theorem Progress.rename {line : Text} {m : Moment} {next : LogPlace}
    (h : Progress localtime call l (.rename line) k)
    (hmove : logMove localtime (.rename line) k m = some (k',some next)) :
    Progress localtime call l next k' := by
  obtain ⟨⟨m',hline⟩,rfl,hfile,hfull⟩ := h
  obtain ⟨stamp,hstamp,hnext⟩ := Option.map_eq_some_iff.mp hmove
  cases hnext
  refine ⟨{ m with now := m'.now },stamp,?_,hstamp,hfile,hfull,?_⟩
  · rwa [record_congr localtime rfl call]
  · cases hm : m.renameOk <;> rfl

private theorem Progress.reopen {line : Text} {m : Moment} {next : LogPlace}
    (h : Progress localtime call l (.reopen line) k)
    (hmove : logMove localtime (.reopen line) k m = some (k',some next)) :
    Progress localtime call l next k' := by
  obtain ⟨m',stamp,hline,hstamp,hfile,hfull,rfl⟩ := h
  cases hmove
  refine ⟨{ m' with openOk := m.openOk },?_,hfile,?_⟩
  · rwa [record_congr localtime rfl call]
  · rw [rotate_full hfull,hstamp,Option.map_some]
    simp only [renameAndReopen]
    cases m'.renameOk <;> cases m.openOk <;> rfl

theorem Progress.move {place next : LogPlace} {m : Moment} (h : Progress localtime call l place k)
    (hmove : logMove localtime place k m = some (k',some next)) : Progress localtime call l next k' := by
  cases place with
  | format c => exact h.format hmove
  | print line => cases hmove
  | stat line => exact h.stat hmove
  | close line =>
    obtain ⟨hline,rfl,hfile,hfull⟩ := h
    cases hmove
    exact ⟨hline,rfl,hfile,hfull⟩
  | rename line => exact h.rename hmove
  | reopen line => exact h.reopen hmove
  | write line => cases hmove

theorem Progress.last {place : LogPlace} {m : Moment} (h : Progress localtime call l place k)
    (hmove : logMove localtime place k m = some (k',none)) :
    ∃ m' line, record localtime m' call = some line ∧ output localtime m' line l = some k' := by
  cases place with
  | format c =>
    obtain ⟨line,_,hnext⟩ := Option.map_eq_some_iff.mp hmove
    cases hnext
  | print line =>
    obtain ⟨⟨m',hline⟩,rfl,hfile⟩ := h
    cases hmove
    exact ⟨m',line,hline,output_console hfile m' line⟩
  | write line =>
    obtain ⟨m',hline,hfile,hrot⟩ := h
    cases hmove
    exact ⟨m',line,hline,by rw [output_toFile hfile,hrot]; rfl⟩
  | stat line =>
    simp only [logMove] at hmove
    split at hmove <;> cases hmove
  | rename line =>
    obtain ⟨stamp,_,hnext⟩ := Option.map_eq_some_iff.mp hmove
    cases hnext
  | close line => cases hmove
  | reopen line => cases hmove

/-- Alone in its section a call does what it does at some moment. -/
theorem complete_call {level : LogLevel} (h : (guardedLog localtime level).Complete call l k)
    (hpasses : passes l.currentLevel call = true) : ∃ m, l.call localtime (m,call) = some k := by
  obtain ⟨place,o,choice,hduring,hmove⟩ := h
  have hprogress : Progress localtime call l place o := by
    clear hmove
    induction hduring with
    | enter => exact ⟨rfl,rfl⟩
    | move choice _ hmove ih => exact ih.move hmove
  obtain ⟨m,line,hline,hout⟩ := hprogress.last hmove
  exact ⟨m,by rw [call_eq,if_pos hpasses,hline,Option.bind_some,hout]⟩

theorem serial_calls {calls : List Call} (h : (guardedLog localtime l.currentLevel).Serial l calls k)
    (hpass : ∀ c ∈ calls, passes l.currentLevel c = true) :
    ∃ ms : List Moment, ms.length = calls.length ∧ l.calls localtime (ms.zip calls) = some k := by
  induction h with
  | nil => exact ⟨[],rfl,rfl⟩
  | @concat calls c before after _ hop ih =>
    obtain ⟨ms,hlength,hbefore⟩ := ih fun c hc => hpass c (List.mem_append_left _ hc)
    have hlevel : before.currentLevel = l.currentLevel := by
      rw [calls_eq_outputs] at hbefore
      obtain ⟨es,_,hbefore⟩ := Option.bind_eq_some_iff.mp hbefore
      exact outputs_currentLevel hbefore
    have hc := hpass c (List.mem_append_right _ (List.mem_singleton_self c))
    obtain ⟨m,hcall⟩ := complete_call hop (by rw [hlevel,hc])
    refine ⟨ms ++ [m],by rw [List.length_append,List.length_append,hlength]; rfl,?_⟩
    rw [List.zip_append hlength]
    exact (calls_concat localtime l _ (m,c)).trans (by rw [hbefore,Option.bind_some,hcall])

end Zone

/-- Two threads and a log file that is full from the start: the second thread comes first, the first
one calls while the file is closed and writes to it next. -/
def sharedLogger : Logger := construct .INFO ['l'] 1 true fun p => if p = ['l'] then some ['x'] else none

def twoThreadsLog : List (Action Call Moment) :=
  [.call 1 (.log .INFO ['b'] [] 0),.lock 1,.move 1 ⟨5,0,true,true⟩,.move 1 ⟨0,0,true,true⟩,
   .move 1 ⟨0,0,true,true⟩,.call 0 (.logTime .DEBUG 0 [] 0),.move 1 ⟨0,6,true,true⟩,
   .move 1 ⟨0,0,true,true⟩,.move 1 ⟨0,0,true,true⟩,.unlock 1,
   .lock 0,.move 0 ⟨7,0,true,true⟩,.move 0 ⟨0,0,true,true⟩,.move 0 ⟨0,0,true,true⟩,.move 0 ⟨0,9,true,true⟩,
   .move 0 ⟨0,0,true,true⟩,.move 0 ⟨0,0,true,true⟩,.unlock 0]

end MyCpp.Logging
