import MyCpp.Logging.LogRotation

/-! The log file stays bounded: a record is only added below the size that triggers a
rotation, and a rotation only moves away a file that has reached it. -/
namespace MyCpp.Logging
open FileStore

section Zone
variable {localtime : Int → Option Tm} {l k : Logger} {text : Text}

/-- One record: the log file exceeds the limit by less than it, and what a rotation moves
to a new name has reached the limit. -/
theorem output_bounded (h : Ready l text) (hmax : 1 ≤ l.maxFileSize) {m : Moment}
    (hm : m.renameOk = true ∧ m.openOk = true) {line : Text} (hk : output localtime m line l = some k) :
    ∃ log, k.files l.logFilePath = some log ∧ log.length < l.maxFileSize + (line.length + 1) ∧
      (k.rotated = l.rotated ∨ l.maxFileSize ≤ text.length ∧
        ∃ name, k.rotated = l.rotated ++ [name] ∧ k.files name = some text) := by
  by_cases hs : l.maxFileSize ≤ text.length
  · obtain ⟨stamp,_,hw,hkept⟩ := output_rotate h hs hm hk
    refine ⟨_,hw.path ▸ hw.ready.holds,?_,.inr ⟨hs,_,hw.rotated,hkept⟩⟩
    rw [List.length_append]
    exact Nat.lt_add_of_pos_left hmax
  · obtain ⟨k',hk',hw⟩ := output_keep localtime h hs m line
    rw [hk] at hk'
    cases hk'
    refine ⟨_,hw.path ▸ hw.ready.holds,?_,.inl (hw.rotated.trans (List.append_nil _))⟩
    rw [List.length_append,List.length_append]
    exact Nat.add_lt_add_right (Nat.lt_of_not_le hs) _

theorem call_bounded (h : Ready l text) (hmax : 1 ≤ l.maxFileSize) {m : Moment}
    (hm : m.renameOk = true ∧ m.openOk = true) {call : Call} (hk : l.call localtime (m,call) = some k) :
    ∃ log, k.files l.logFilePath = some log ∧ (passes l.currentLevel call = false → k = l) ∧
      (passes l.currentLevel call = true →
        ∃ line, record localtime m call = some line ∧ log.length < l.maxFileSize + (line.length + 1)) ∧
      (k.rotated = l.rotated ∨ l.maxFileSize ≤ text.length ∧
        ∃ name, k.rotated = l.rotated ++ [name] ∧ k.files name = some text) := by
  rw [call_eq] at hk
  cases hp : passes l.currentLevel call with
  | true =>
    rw [if_pos hp] at hk
    obtain ⟨line,hline,hk⟩ := Option.bind_eq_some_iff.mp hk
    obtain ⟨log,hlog,hlen,hrot⟩ := output_bounded h hmax hm hk
    exact ⟨log,hlog,by simp,fun _ => ⟨line,hline,hlen⟩,hrot⟩
  | false =>
    rw [if_neg (by simp [hp])] at hk
    cases hk
    exact ⟨text,h.holds,fun _ => rfl,by simp,.inl rfl⟩

theorem constructed_ready {level : LogLevel} {path : Text} (hpath : path ≠ []) {maxSize : Nat}
    {files : Files Text Text} {cs : List (Moment × Call)} (hcs : AllSucceed cs)
    (hl : (construct level path maxSize true files).calls localtime cs = some l) :
    (∃ text, Ready l text) ∧ l.logFilePath = path ∧ l.maxFileSize = maxSize ∧ l.currentLevel = level := by
  have hstart := construct_ready level hpath maxSize files
  rw [construct_eq level hpath] at hl hstart
  rw [calls_eq_outputs] at hl
  obtain ⟨es,hes,hl⟩ := Option.bind_eq_some_iff.mp hl
  obtain ⟨stamps,_,hw,_⟩ := outputs_pieces hstart (hcs.records hes) hl
  exact ⟨⟨_,hw.ready⟩,hw.path,hw.size,outputs_currentLevel hl⟩

variable (localtime)

/-- For every limit, every file system and every calls with local times for their time_t values:
the calls return, one that passes leaves a log file below the limit and its own record, and if it
renames a file away, that file has reached the limit and is found under the new name. A call that
does not pass does nothing. -/
theorem log_stays_bounded (level : LogLevel) (path : Text) (hpath : path ≠ []) (maxSize : Nat)
    (hmax : 1 ≤ maxSize) (files : Files Text Text) (before : List (Moment × Call)) (m : Moment) (call : Call)
    (hcs : AllSucceed (before ++ [(m,call)])) (htimes : HaveLocalTimes localtime level (before ++ [(m,call)])) :
    ∃ l l' old log, (construct level path maxSize true files).calls localtime before = some l ∧
      l.call localtime (m,call) = some l' ∧ l.files path = some old ∧ l'.files path = some log ∧
      (passes level call = false → l' = l) ∧
      (passes level call = true →
        ∃ line, record localtime m call = some line ∧ log.length < maxSize + (line.length + 1)) ∧
      (l'.rotated = l.rotated ∨
        maxSize ≤ old.length ∧ ∃ name, l'.rotated = l.rotated ++ [name] ∧ l'.files name = some old) := by
  have hlevel := construct_currentLevel level path maxSize true files
  obtain ⟨_,l',_,_,hcalls⟩ := calls_return (l := construct level path maxSize true files) (hlevel.symm ▸ htimes)
  rw [calls_concat] at hcalls
  obtain ⟨l,hl,hcall⟩ := Option.bind_eq_some_iff.mp hcalls
  have hbefore : AllSucceed before := fun c hc => hcs c (List.mem_append_left _ hc)
  obtain ⟨⟨old,hready⟩,rfl,rfl,rfl⟩ := constructed_ready hpath hbefore hl
  obtain ⟨log,hlog,hbound⟩ := call_bounded hready hmax (hcs (m,call) (by simp)) hcall
  exact ⟨l,l',old,log,hl,hcall,hready.holds,hlog,hbound⟩

end Zone

/-- The third of the three calls moves the record of the second away. -/
theorem log_stays_bounded_third : ∃ l l' old log,
    (construct .INFO ['l'] 1 true fun _ => none).calls firstHour ((threeCalls 5 1).take 2) = some l ∧
    l.call firstHour (⟨7,7,true,true⟩,.logTime .INFO 0 [] 0) = some l' ∧ l'.rotated ≠ l.rotated ∧
    l.files ['l'] = some old ∧ 1 ≤ old.length ∧ l'.files ['l'] = some log ∧
    ∃ line, record firstHour ⟨7,7,true,true⟩ (.logTime .INFO 0 [] 0) = some line ∧
      log.length < 1 + (line.length + 1) := by
  have hsucceed : AllSucceed ((threeCalls 5 1).take 2 ++ [(⟨7,7,true,true⟩,.logTime .INFO 0 [] 0)]) := by
    unfold AllSucceed
    decide
  obtain ⟨l,l',old,log,hl,hcall,hold,hlog,_,hlen,hrot⟩ := log_stays_bounded firstHour .INFO ['l'] (by decide) 1
    (by decide) (fun _ => none) _ _ _ hsucceed (by decide)
  have hrotates : ∀ l ∈ (construct .INFO ['l'] 1 true fun _ => none).calls firstHour ((threeCalls 5 1).take 2),
      ∀ l' ∈ l.call firstHour (⟨7,7,true,true⟩,.logTime .INFO 0 [] 0), l'.rotated ≠ l.rotated := by
    decide
  have hmoved := hrotates l hl l' hcall
  exact ⟨l,l',old,log,hl,hcall,hmoved,hold,(hrot.resolve_left hmoved).1,hlog,hlen rfl⟩

end MyCpp.Logging
