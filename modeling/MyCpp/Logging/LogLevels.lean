import MyCpp.Library.FilterCount
import MyCpp.Logging.LogFallback

/-! Which records are emitted at a threshold. The enum declares DEBUG last, so the test of
the template overload takes it for the most severe level; the time_t overload has no test. -/
namespace MyCpp.Logging
open FilterCount

def LogLevel.severity : LogLevel → Nat
  | DEBUG => 0
  | INFO => 1
  | WARNING => 2
  | ERROR => 3

def Call.level : Call → LogLevel
  | .log level _ _ _ => level
  | .logTime level _ _ _ => level

def severe (currentLevel : LogLevel) (call : Call) : Bool :=
  currentLevel.severity ≤ call.level.severity

/-- Calls that the tests of both overloads treat by severity: no DEBUG record at a higher
threshold and no time_t record below it, and at threshold DEBUG no other template call. -/
def FilteredBySeverity (currentLevel : LogLevel) : Call → Prop
  | .log level _ _ _ => currentLevel = .DEBUG ↔ level = .DEBUG
  | .logTime level _ _ _ =>
    currentLevel = .DEBUG ∨ level ≠ .DEBUG ∧ currentLevel.value ≤ level.value

theorem passes_eq_severe_iff (currentLevel : LogLevel) (call : Call) :
    passes currentLevel call = severe currentLevel call ↔ FilteredBySeverity currentLevel call := by
  cases call with
  | log level message fileName lineNumber =>
    cases currentLevel <;> cases level <;>
      simp [FilteredBySeverity,passes,severe,Call.level,LogLevel.value,LogLevel.severity]
  | logTime level timeValue fileName lineNumber =>
    cases currentLevel <;> cases level <;>
      simp [FilteredBySeverity,passes,severe,Call.level,LogLevel.value,LogLevel.severity]

theorem passes_of_severe {currentLevel : LogLevel} (h : currentLevel ≠ .DEBUG) (call : Call)
    (hs : severe currentLevel call = true) : passes currentLevel call = true := by
  cases call with
  | log level message fileName lineNumber =>
    cases currentLevel <;> cases level <;>
      simp [severe,Call.level,passes,LogLevel.value,LogLevel.severity] at h hs ⊢
  | logTime level timeValue fileName lineNumber => rfl

theorem severe_debug (call : Call) : severe .DEBUG call = true := by
  simp [severe,LogLevel.severity]

/-- The two tests keep equally many calls only when they keep the same: at each threshold
one of them keeps whatever the other keeps. -/
theorem passes_eq_severe_of_length {currentLevel : LogLevel} {cs : List (Moment × Call)}
    (h : (cs.filter fun c => passes currentLevel c.2).length =
      (cs.filter fun c => severe currentLevel c.2).length) :
    ∀ c ∈ cs, passes currentLevel c.2 = severe currentLevel c.2 := by
  rw [← List.countP_eq_length_filter,← List.countP_eq_length_filter] at h
  by_cases hd : currentLevel = .DEBUG
  · subst hd
    exact agree_of_countP_eq (fun c _ => severe_debug c.2) h
  · intro c hc
    exact (agree_of_countP_eq (fun c hs => passes_of_severe hd c.2 hs) h.symm c hc).symm

section Zone
variable (localtime : Int → Option Tm)

def severeRecords (currentLevel : LogLevel) (cs : List (Moment × Call)) : Option (List (Moment × Text)) :=
  recordAll localtime (cs.filter fun c => severe currentLevel c.2)

variable {localtime}

theorem outputs_below (localtime : Int → Option Tm) {l : Logger} {text : Text} (h : Ready l text)
    {es : List (Moment × Text)} (hs : text.length + (linesOf es).length ≤ l.maxFileSize) :
    ∃ k, outputs localtime l es = some k ∧ Ready k (text ++ linesOf es) ∧ k.maxFileSize = l.maxFileSize := by
  induction es generalizing l text with
  | nil => exact ⟨l,rfl,by rwa [linesOf,List.flatMap_nil,List.append_nil],rfl⟩
  | cons e es ih =>
    obtain ⟨m,line⟩ := e
    rw [linesOf_cons,List.length_append,List.length_append] at hs
    have hbelow : ¬ l.maxFileSize ≤ text.length := by
      simp at hs ⊢
      omega
    obtain ⟨j,hj,hw⟩ := output_keep localtime h hbelow m line
    obtain ⟨k,hk,hready,hsize⟩ := ih hw.ready (by rw [hw.size,List.length_append,List.length_append]; omega)
    refine ⟨k,by rw [outputs_cons,hj,Option.bind_some,hk],?_,hsize.trans hw.size⟩
    rwa [linesOf_cons,← List.append_assoc]

/-- Records that every logger writes: any of them can be the one that rotates. -/
theorem rotation_times_exist {level : LogLevel} {es : List (Moment × Text)}
    (h : ∀ l : Logger, l.currentLevel = level → ∃ k, outputs localtime l es = some k) :
    ∀ e ∈ es, localtime e.1.rotationTime ≠ none := by
  intro e he hnone
  obtain ⟨before,after,rfl⟩ := List.append_of_mem he
  have hstart : Ready (construct level ['l'] (linesOf before).length true fun _ => none) [] :=
    construct_ready level (by decide) _ _
  have hfits : ([] : Text).length + (linesOf before).length ≤
      (construct level ['l'] (linesOf before).length true fun _ => none).maxFileSize :=
    Nat.le_of_eq (Nat.zero_add _)
  obtain ⟨j,hj,hready,hsize⟩ := outputs_below localtime hstart hfits
  have hfull : Full j := hready.full_iff.mpr (Nat.le_of_eq hsize)
  obtain ⟨k,hk⟩ := h (construct level ['l'] (linesOf before).length true fun _ => none) rfl
  have happend : outputs localtime (construct level ['l'] (linesOf before).length true fun _ => none)
      (before ++ e :: after) = (output localtime e.1 e.2 j).bind fun i => outputs localtime i after := by
    rw [outputs,List.foldlM_append]
    exact (congrArg (Option.bind · _) hj)
  rw [happend,output_toFile hready.toFile,rotate_full hfull,getTimestamp,hnone] at hk
  cases hk

/-- Every logger of a level returns from the calls exactly when their time_t values have local times. -/
theorem calls_return_iff {level : LogLevel} {cs : List (Moment × Call)} :
    (∀ l : Logger, l.currentLevel = level → ∃ k, l.calls localtime cs = some k) ↔
      HaveLocalTimes localtime level cs := by
  constructor
  · intro h
    have hwrites : ∀ l : Logger, l.currentLevel = level → ∃ es k, records localtime level cs = some es ∧
        outputs localtime l es = some k := by
      intro l hl
      obtain ⟨k,hk⟩ := h l hl
      rw [calls_eq_outputs,hl] at hk
      obtain ⟨es,hes,hk⟩ := Option.bind_eq_some_iff.mp hk
      exact ⟨es,k,hes,hk⟩
    obtain ⟨es,_,hes,_⟩ := hwrites (construct level [] 0 true fun _ => none) rfl
    have hrotations : ∀ e ∈ es, localtime e.1.rotationTime ≠ none := by
      refine rotation_times_exist fun l (hl : l.currentLevel = level) => ?_
      obtain ⟨es',k,hes',hk⟩ := hwrites l hl
      rw [hes] at hes'
      cases hes'
      exact ⟨k,hk⟩
    intro c hc hp t ht
    have hkept : c ∈ cs.filter fun c => passes level c.2 := List.mem_filter.mpr ⟨hc,hp⟩
    rcases List.mem_cons.mp ht with rfl | ht
    · have hmem : c.1 ∈ es.map Prod.fst := recordAll_moments hes ▸ List.mem_map_of_mem hkept
      obtain ⟨e,he,hce⟩ := List.mem_map.mp hmem
      exact hce ▸ hrotations e he
    · exact record_exists_iff.mp (recordAll_exists_iff.mp ⟨es,hes⟩ c hkept) t ht
  · intro h l hl
    subst hl
    obtain ⟨_,k,_,_,hk⟩ := calls_return h
    exact ⟨k,hk⟩

theorem passes_eq_severe_of_console {level : LogLevel} {cs : List (Moment × Call)} {es : List (Moment × Text)}
    {l k : Logger} (hconsole : l.toFile = false) (hl : l.currentLevel = level)
    (hes : severeRecords localtime level cs = some es) (hcalls : l.calls localtime cs = some k)
    (hk : outputs localtime l es = some k) : ∀ c ∈ cs, passes level c.2 = severe level c.2 := by
  rw [calls_eq_outputs,hl] at hcalls
  obtain ⟨rs,hrs,hcalls⟩ := Option.bind_eq_some_iff.mp hcalls
  rw [outputs_console hconsole] at hk hcalls
  have hcout := congrArg (fun l : Logger => l.cout.length) (Option.some.inj (hcalls.trans hk.symm))
  simp only [List.length_append,List.length_map,Nat.add_left_cancel_iff] at hcout
  have hpassing := congrArg List.length (recordAll_moments hrs)
  have hsevere := congrArg List.length (recordAll_moments hes)
  rw [List.length_map,List.length_map] at hpassing hsevere
  exact passes_eq_severe_of_length (hpassing.symm.trans (hcout.trans hsevere))

variable (localtime)

/-- For every threshold and every sequence of calls of both overloads: with every logger they
return and emit the records of the calls that are severe enough, in order and no others, exactly
when each time_t value has a local time and each call is one that its overload filters by severity. -/
theorem filtered_by_severity_iff (level : LogLevel) (cs : List (Moment × Call)) :
    (∀ l : Logger, l.currentLevel = level → ∃ es k, severeRecords localtime level cs = some es ∧
        l.calls localtime cs = some k ∧ outputs localtime l es = some k) ↔
      HaveLocalTimes localtime level cs ∧ ∀ c ∈ cs, FilteredBySeverity level c.2 := by
  constructor
  · intro h
    refine ⟨calls_return_iff.mp fun l hl => ?_,fun c hc => ?_⟩
    · obtain ⟨_,k,_,hcalls,_⟩ := h l hl
      exact ⟨k,hcalls⟩
    · obtain ⟨es,k,hes,hcalls,hk⟩ := h (construct level [] 0 true fun _ => none) rfl
      exact (passes_eq_severe_iff level c.2).mp (passes_eq_severe_of_console rfl rfl hes hcalls hk c hc)
  · intro h l hl
    obtain ⟨htimes,hfiltered⟩ := h
    have hfilter : (cs.filter fun c => passes level c.2) = cs.filter fun c => severe level c.2 := by
      apply List.filter_congr
      intro c hc
      exact (passes_eq_severe_iff level c.2).mpr (hfiltered c hc)
    subst hl
    obtain ⟨es,k,hes,hk,hcalls⟩ := calls_return htimes
    rw [records,hfilter] at hes
    exact ⟨es,k,hes,hcalls,hk⟩

end Zone

/-- The demo's console logger at INFO with a DEBUG message, and a time_t call of the same level. -/
def debugCalls : List (Moment × Call) :=
  [({ now := 5, rotationTime := 5 },.log .DEBUG ['x'] [] 0),
    ({ now := 5, rotationTime := 5 },.logTime .DEBUG 0 [] 0)]

/-- Both records are printed though neither is severe enough. -/
theorem debug_printed_at_info : HaveLocalTimes firstHour .INFO debugCalls ∧
    severeRecords firstHour .INFO debugCalls = some [] ∧
    ((construct .INFO [] 0 true fun _ => none).calls firstHour debugCalls).map Logger.cout =
      some ["1970-01-01 00:00:05 [DEBUG] x\n".toList,
        "1970-01-01 00:00:05 [DEBUG] Time: 1970-01-01 00:00:00\n".toList] ∧
    ¬ (∀ l : Logger, l.currentLevel = .INFO → ∃ es k, severeRecords firstHour .INFO debugCalls = some es ∧
      l.calls firstHour debugCalls = some k ∧ outputs firstHour l es = some k) := by
  refine ⟨by decide,rfl,by decide,?_⟩
  intro h
  obtain ⟨es,k,hes,hcalls,hk⟩ := h (construct .INFO [] 0 true fun _ => none) rfl
  cases hes
  cases hk
  have hcout := congrArg (Option.map Logger.cout) hcalls
  exact absurd hcout (by decide)

end MyCpp.Logging
