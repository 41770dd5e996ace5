import Mathlib.Data.Option.Basic
import MyCpp.Logging.LoggerModel

/-! Which calls return. A call that passes the level test makes its record and writes it; both
need the local time of the time_t values that it asks about. -/
namespace MyCpp.Logging
open FileStore

/-- Whether a call gets past the level test of its overload. -/
def passes (currentLevel : LogLevel) : Call → Bool
  | .log level _ _ _ => currentLevel.value ≤ level.value
  | .logTime _ _ _ _ => true

/-- The time_t values in the record of a call: the clock and the argument of the time_t overload. -/
def recordTimes (m : Moment) : Call → List Int
  | .log _ _ _ _ => [m.now]
  | .logTime _ timeValue _ _ => [m.now,timeValue]

def Full (l : Logger) : Prop :=
  ∃ content ∈ l.files l.logFilePath, l.maxFileSize ≤ content.length

instance (l : Logger) : Decidable (Full l) :=
  inferInstanceAs (Decidable (∃ content ∈ l.files l.logFilePath, l.maxFileSize ≤ content.length))

theorem construct_currentLevel (level : LogLevel) (path : Text) (maxSize : Nat) (openOk : Bool)
    (files : Files Text Text) : (construct level path maxSize openOk files).currentLevel = level := by
  rw [construct]
  split
  · rfl
  · split <;> rfl

section Zone
variable (localtime : Int → Option Tm)

/-- Every time_t value of the calls that pass has a local time: those in their records and the
clock at their rotations. -/
def HaveLocalTimes (currentLevel : LogLevel) (cs : List (Moment × Call)) : Prop :=
  ∀ c ∈ cs, passes currentLevel c.2 = true →
    ∀ t ∈ c.1.rotationTime :: recordTimes c.1 c.2, localtime t ≠ none

instance (currentLevel : LogLevel) (cs : List (Moment × Call)) :
    Decidable (HaveLocalTimes localtime currentLevel cs) :=
  inferInstanceAs (Decidable (∀ c ∈ cs, passes currentLevel c.2 = true →
    ∀ t ∈ c.1.rotationTime :: recordTimes c.1 c.2, localtime t ≠ none))

def recordAll (cs : List (Moment × Call)) : Option (List (Moment × Text)) :=
  cs.mapM fun c => (record localtime c.1 c.2).map fun line => (c.1,line)

/-- The records of the calls that pass. -/
def records (currentLevel : LogLevel) (cs : List (Moment × Call)) : Option (List (Moment × Text)) :=
  recordAll localtime (cs.filter fun c => passes currentLevel c.2)

/-- Records written one after the other. -/
def outputs (l : Logger) (es : List (Moment × Text)) : Option Logger :=
  es.foldlM (fun l e => output localtime e.1 e.2 l) l

theorem recordAll_cons (m : Moment) (call : Call) (cs : List (Moment × Call)) :
    recordAll localtime ((m,call) :: cs) =
      (record localtime m call).bind fun line => (recordAll localtime cs).map ((m,line) :: ·) := by
  rw [recordAll,List.mapM_cons,← recordAll]
  cases record localtime m call with
  | none => rfl
  | some line => cases recordAll localtime cs <;> rfl

theorem outputs_cons (l : Logger) (m : Moment) (line : Text) (es : List (Moment × Text)) :
    outputs localtime l ((m,line) :: es) =
      (output localtime m line l).bind fun k => outputs localtime k es := rfl

theorem calls_cons (l : Logger) (c : Moment × Call) (cs : List (Moment × Call)) :
    l.calls localtime (c :: cs) = (l.call localtime c).bind fun k => k.calls localtime cs := rfl

theorem calls_concat (l : Logger) (cs : List (Moment × Call)) (c : Moment × Call) :
    l.calls localtime (cs ++ [c]) = (l.calls localtime cs).bind fun k => k.call localtime c := by
  rw [Logger.calls,List.foldlM_append]
  simp only [List.foldlM_cons,List.foldlM_nil,bind_pure]
  rfl

theorem call_eq (l : Logger) (m : Moment) (call : Call) :
    l.call localtime (m,call) = if passes l.currentLevel call then
      (record localtime m call).bind fun line => output localtime m line l else some l := by
  cases call with
  | log level message fileName lineNumber => simp [Logger.call,log,passes]
  | logTime level timeValue fileName lineNumber => simp [Logger.call,logTime,passes]

variable {localtime} {l k : Logger} {m : Moment} {line : Text}

theorem recordAll_moments {cs : List (Moment × Call)} {es : List (Moment × Text)}
    (h : recordAll localtime cs = some es) : es.map Prod.fst = cs.map Prod.fst := by
  induction cs generalizing es with
  | nil =>
    cases h
    rfl
  | cons c cs ih =>
    obtain ⟨m,call⟩ := c
    rw [recordAll_cons] at h
    obtain ⟨line,_,h⟩ := Option.bind_eq_some_iff.mp h
    obtain ⟨rest,hrest,rfl⟩ := Option.map_eq_some_iff.mp h
    rw [List.map_cons,List.map_cons,ih hrest]

theorem rotate_full (h : Full l) (m : Moment) : rotateLogFile localtime m l =
    (getTimestamp localtime m.rotationTime).map fun stamp => renameAndReopen stamp m l := by
  obtain ⟨content,hc,hs⟩ := h
  rw [Option.mem_def] at hc
  simp only [rotateLogFile,hc,if_pos hs]

theorem rotate_not_full (h : ¬ Full l) (m : Moment) : rotateLogFile localtime m l = some l := by
  rw [rotateLogFile]
  cases hc : l.files l.logFilePath with
  | none => rfl
  | some content =>
    have hs : ¬ l.maxFileSize ≤ content.length := by
      intro hs
      exact h ⟨content,hc,hs⟩
    simp only [if_neg hs]

/-- What a rotation test that returns has done. -/
theorem rotate_cases (h : rotateLogFile localtime m l = some k) : ¬ Full l ∧ k = l ∨
    Full l ∧ ∃ stamp, getTimestamp localtime m.rotationTime = some stamp ∧ k = renameAndReopen stamp m l := by
  by_cases hfull : Full l
  · rw [rotate_full hfull] at h
    obtain ⟨stamp,hstamp,rfl⟩ := Option.map_eq_some_iff.mp h
    exact .inr ⟨hfull,stamp,hstamp,rfl⟩
  · rw [rotate_not_full hfull] at h
    cases h
    exact .inl ⟨hfull,rfl⟩

theorem output_toFile (h : l.toFile = true) (m : Moment) (line : Text) :
    output localtime m line l = (rotateLogFile localtime m l).map (writeLine line) :=
  if_pos h

theorem output_console (h : l.toFile = false) (m : Moment) (line : Text) :
    output localtime m line l = some (printLine line l) := by
  rw [output,h]
  rfl

theorem output_currentLevel (h : output localtime m line l = some k) : k.currentLevel = l.currentLevel := by
  cases hfile : l.toFile with
  | false =>
    rw [output_console hfile] at h
    cases h
    rfl
  | true =>
    rw [output_toFile hfile] at h
    obtain ⟨j,hj,rfl⟩ := Option.map_eq_some_iff.mp h
    have hlevel : j.currentLevel = l.currentLevel := by
      rcases rotate_cases hj with ⟨_,rfl⟩ | ⟨_,stamp,_,rfl⟩
      · rfl
      · cases hr : m.renameOk <;> cases ho : m.openOk <;> simp [renameAndReopen,hr,ho]
    rw [← hlevel,writeLine]
    split <;> rfl

theorem outputs_currentLevel {es : List (Moment × Text)} (h : outputs localtime l es = some k) :
    k.currentLevel = l.currentLevel := by
  induction es generalizing l with
  | nil =>
    cases h
    rfl
  | cons e es ih =>
    obtain ⟨j,hj,hrest⟩ := Option.bind_eq_some_iff.mp h
    exact (ih hrest).trans (output_currentLevel hj)

theorem records_cons_pass {level : LogLevel} {call : Call} (h : passes level call = true) (m : Moment)
    (cs : List (Moment × Call)) : records localtime level ((m,call) :: cs) =
      (record localtime m call).bind fun line => (records localtime level cs).map ((m,line) :: ·) := by
  have hfilter : ((m,call) :: cs).filter (fun c => passes level c.2) =
      (m,call) :: cs.filter fun c => passes level c.2 := List.filter_cons_of_pos h
  rw [records,hfilter,recordAll_cons]
  rfl

theorem records_cons_drop {level : LogLevel} {call : Call} (h : ¬ passes level call = true) (m : Moment)
    (cs : List (Moment × Call)) : records localtime level ((m,call) :: cs) = records localtime level cs := by
  have hfilter : ((m,call) :: cs).filter (fun c => passes level c.2) =
      cs.filter fun c => passes level c.2 := List.filter_cons_of_neg h
  rw [records,hfilter,records]

variable (localtime)

/-- Calls write the records of those that pass, and return when all of that returns. -/
theorem calls_eq_outputs (l : Logger) (cs : List (Moment × Call)) : l.calls localtime cs =
    (records localtime l.currentLevel cs).bind (outputs localtime l) := by
  induction cs generalizing l with
  | nil => rfl
  | cons c cs ih =>
    obtain ⟨m,call⟩ := c
    rw [calls_cons,call_eq]
    by_cases hp : passes l.currentLevel call = true
    · rw [if_pos hp,records_cons_pass hp]
      cases record localtime m call with
      | none => rfl
      | some line =>
        rw [Option.bind_some,Option.bind_some,Option.bind_map]
        cases hout : output localtime m line l with
        | none =>
          cases records localtime l.currentLevel cs with
          | none => rfl
          | some es => simp [outputs_cons,hout]
        | some k =>
          rw [Option.bind_some,ih,output_currentLevel hout]
          congr 1
          funext es
          rw [Function.comp_apply,outputs_cons,hout,Option.bind_some]
    · rw [if_neg hp,records_cons_drop hp,Option.bind_some,ih]

variable {localtime}

theorem output_returns (h : localtime m.rotationTime ≠ none) (line : Text) (l : Logger) :
    ∃ k, output localtime m line l = some k := by
  cases hfile : l.toFile with
  | false => exact ⟨_,output_console hfile m line⟩
  | true =>
    rw [output_toFile hfile]
    by_cases hfull : Full l
    · obtain ⟨tm,htm⟩ := Option.ne_none_iff_exists'.mp h
      exact ⟨_,by rw [rotate_full hfull,getTimestamp,htm]; rfl⟩
    · exact ⟨_,by rw [rotate_not_full hfull]; rfl⟩

theorem outputs_return {es : List (Moment × Text)} (h : ∀ e ∈ es, localtime e.1.rotationTime ≠ none)
    (l : Logger) : ∃ k, outputs localtime l es = some k := by
  induction es generalizing l with
  | nil => exact ⟨l,rfl⟩
  | cons e es ih =>
    obtain ⟨m,line⟩ := e
    obtain ⟨j,hj⟩ := output_returns (h _ (List.mem_cons_self ..)) line l
    obtain ⟨k,hk⟩ := ih (fun e he => h e (List.mem_cons_of_mem _ he)) j
    exact ⟨k,by rw [outputs_cons,hj,Option.bind_some,hk]⟩

theorem record_exists_iff {call : Call} : (∃ line, record localtime m call = some line) ↔
    ∀ t ∈ recordTimes m call, localtime t ≠ none := by
  cases call with
  | log level message fileName lineNumber =>
    cases hnow : localtime m.now <;> simp [record,recordTimes,getTimestamp,hnow]
  | logTime level timeValue fileName lineNumber =>
    cases hnow : localtime m.now <;> cases htime : localtime timeValue <;>
      simp [record,recordTimes,getTimestamp,hnow,htime]

theorem recordAll_exists_iff {cs : List (Moment × Call)} : (∃ es, recordAll localtime cs = some es) ↔
    ∀ c ∈ cs, ∃ line, record localtime c.1 c.2 = some line := by
  induction cs with
  | nil => simp [recordAll]
  | cons c cs ih =>
    obtain ⟨m,call⟩ := c
    rw [recordAll_cons,List.forall_mem_cons,← ih]
    constructor
    · rintro ⟨es,hes⟩
      obtain ⟨line,hline,hes⟩ := Option.bind_eq_some_iff.mp hes
      obtain ⟨rest,hrest,_⟩ := Option.map_eq_some_iff.mp hes
      exact ⟨⟨line,hline⟩,rest,hrest⟩
    · rintro ⟨⟨line,hline⟩,rest,hrest⟩
      exact ⟨(m,line) :: rest,by rw [hline,hrest]; rfl⟩

theorem calls_return {cs : List (Moment × Call)} (h : HaveLocalTimes localtime l.currentLevel cs) :
    ∃ es k, records localtime l.currentLevel cs = some es ∧ outputs localtime l es = some k ∧
      l.calls localtime cs = some k := by
  have hrecords : ∃ es, records localtime l.currentLevel cs = some es := by
    apply recordAll_exists_iff.mpr
    intro c hc
    obtain ⟨hc,hp⟩ := List.mem_filter.mp hc
    exact record_exists_iff.mpr fun t ht => h c hc hp t (List.mem_cons_of_mem _ ht)
  obtain ⟨es,hes⟩ := hrecords
  have hrotations : ∀ e ∈ es, localtime e.1.rotationTime ≠ none := by
    intro e he
    have hmem : e.1 ∈ (cs.filter fun c => passes l.currentLevel c.2).map Prod.fst :=
      recordAll_moments hes ▸ List.mem_map_of_mem he
    obtain ⟨⟨m,call⟩,hc,he⟩ := List.mem_map.mp hmem
    obtain ⟨hc,hp⟩ := List.mem_filter.mp hc
    rw [← he]
    exact h _ hc hp _ (List.mem_cons_self ..)
  obtain ⟨k,hk⟩ := outputs_return hrotations l
  exact ⟨es,k,hes,hk,by rw [calls_eq_outputs,hes,Option.bind_some,hk]⟩

end Zone
end MyCpp.Logging
