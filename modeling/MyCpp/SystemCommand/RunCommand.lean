import Mathlib.Data.List.Basic
import Mathlib.Data.List.TakeWhile
import MyCpp.Library.LineInput

/-! run_cmd and main of SampleSystemCommand.cpp. The command belongs to the environment: what
popen makes of each of its runs is an input. Every call of fgets overwrites what the calls
before it returned, so of a line longer than the buffer only the last piece is kept. -/
namespace MyCpp.SystemCommand
open LineInput

abbrev Bytes := List UInt8

def NEWLINE : UInt8 := 10

def text (s : String) : Bytes := s.toUTF8.data.toList

/-- string(buff): what stands before the first zero. -/
def cString (buff : Bytes) : Bytes := buff.takeWhile (· ≠ 0)

/-- The loop of run_cmd, over what is left to read. -/
def readLoop (output ip_port : Bytes) : Bytes :=
  match _ : fgets NEWLINE 512 output with
  | none => ip_port
  | some (buff,rest) => readLoop rest (cString buff)
termination_by output.length
decreasing_by exact fgets_rest_lt (show 1 < 512 by decide) ‹_›

/-- run_cmd, with the output of the command unless popen fails. -/
def runCmd : Option Bytes → Bytes
  | none => []
  | some output => readLoop output []

/-- The first loop of main over the runs of its command: the first text that is not empty, and
how many lines were printed by then. -/
def retryLoop : List (Option Bytes) → Option (Bytes × Nat)
  | [] => none
  | run :: runs =>
    if (runCmd run).isEmpty then (retryLoop runs).map fun r => (r.1,r.2+1)
    else some (runCmd run,1)

/-- What main has when it ends. -/
structure Result where
  ip_port : Bytes
  CMD_2 : Bytes
  cout : List Bytes

/-- The rest of main, after its first loop. -/
def replacePort (ip_port : Bytes) (retries : Nat) : Result :=
  let ip_port := ip_port.filter (· ≠ NEWLINE)
  let CMD_2 := text "sed 's/#/" ++ ip_port ++ text "/g' sample.txt > sample.txt.copy"
  { ip_port
    CMD_2
    cout := List.replicate retries (text "Sleeping 1 sec and do retry  \n") ++
      [text "ip_port " ++ ip_port ++ [NEWLINE],CMD_2 ++ [NEWLINE]] }

/-- main, which ends if one of the runs gives it something. -/
def main (runs : List (Option Bytes)) : Option Result :=
  (retryLoop runs).map fun r => replacePort r.1 r.2

/-- No end of line and no zero inside. -/
def IsLine (line : Bytes) : Prop := NEWLINE ∉ line ∧ 0 ∉ line

instance (line : Bytes) : Decidable (IsLine line) := inferInstanceAs (Decidable (_ ∧ _))

def joinLines (lines : List Bytes) : Bytes := lines.flatMap (· ++ [NEWLINE])

theorem cString_eq {buff : Bytes} (h : 0 ∉ buff) : cString buff = buff := by
  rw [cString,List.takeWhile_eq_self_iff]
  intro c hc
  exact decide_eq_true (ne_of_mem_of_not_mem hc h)

theorem readLoop_nil (ip_port : Bytes) : readLoop [] ip_port = ip_port := by
  rw [readLoop]
  split
  case h_1 => rfl
  case h_2 h => exact absurd h nofun

theorem readLoop_step {output : Bytes} (h : output ≠ []) (ip_port : Bytes) :
    readLoop output ip_port =
      readLoop (takeLine NEWLINE 511 output).2 (cString (takeLine NEWLINE 511 output).1) := by
  have hget : fgets NEWLINE 512 output = some (takeLine NEWLINE 511 output) := fgets_eq_some NEWLINE 512 h
  rw [readLoop]
  split
  case h_1 hnone => rw [hnone] at hget; contradiction
  case h_2 hsome =>
    rw [hsome,Option.some.injEq] at hget
    rw [← hget]

/-- What the loop has when a line has been read, however many pieces it took. -/
theorem readLoop_line {line : Bytes} (hline : IsLine line) (rest ip_port : Bytes) :
    readLoop (line ++ NEWLINE :: rest) ip_port = readLoop rest (lastPiece 511 line ++ [NEWLINE]) := by
  induction hn : line.length using Nat.strong_induction_on generalizing line ip_port with
  | _ n ih =>
    rw [readLoop_step (by simp)]
    obtain hshort | hlong := Nat.lt_or_ge line.length 511
    · have hzero : 0 ∉ line ++ [NEWLINE] := by
        rw [List.mem_append,not_or]
        exact ⟨hline.2,by decide⟩
      rw [takeLine_short hline.1 hshort,cString_eq hzero,lastPiece_short hshort]
    · have hdrop : IsLine (line.drop 511) :=
        ⟨fun h => hline.1 (List.mem_of_mem_drop h),fun h => hline.2 (List.mem_of_mem_drop h)⟩
      have hless : (line.drop 511).length < n := by
        rw [List.length_drop]
        omega
      rw [takeLine_long hline.1 hlong,ih _ hless hdrop _ rfl,lastPiece_drop (by decide) hlong]

theorem runCmd_lines {before : List Bytes} {last : Bytes} (hlines : ∀ line ∈ before ++ [last], IsLine line) :
    runCmd (some (joinLines (before ++ [last]))) = lastPiece 511 last ++ [NEWLINE] := by
  suffices h : ∀ ip_port,
      readLoop (joinLines (before ++ [last])) ip_port = lastPiece 511 last ++ [NEWLINE] from h []
  induction before with
  | nil =>
    intro ip_port
    have hline := hlines last (List.mem_singleton_self last)
    rw [joinLines,List.nil_append,List.flatMap_singleton,readLoop_line hline,readLoop_nil]
  | cons line before ih =>
    intro ip_port
    have hline := hlines line List.mem_cons_self
    have hlater := ih fun line h => hlines line (List.mem_cons_of_mem _ h)
    rw [joinLines,List.cons_append,List.flatMap_cons,List.append_assoc,List.singleton_append,readLoop_line hline]
    exact hlater _

/-- main retries until a run gives it something, and prints one line for each run. -/
theorem retryLoop_append {retries : List (Option Bytes)} (hretries : ∀ run ∈ retries, runCmd run = [])
    {run : Option Bytes} (hrun : runCmd run ≠ []) (later : List (Option Bytes)) :
    retryLoop (retries ++ run :: later) = some (runCmd run,retries.length+1) := by
  induction retries with
  | nil => rw [List.nil_append,retryLoop,List.isEmpty_eq_false_iff.mpr hrun]; rfl
  | cons failed retries ih =>
    have hfailed := hretries failed List.mem_cons_self
    rw [List.cons_append,retryLoop,hfailed,ih fun run h => hretries run (List.mem_cons_of_mem _ h)]
    rfl

theorem main_eq_none_iff (runs : List (Option Bytes)) : main runs = none ↔ ∀ run ∈ runs, runCmd run = [] := by
  rw [main,Option.map_eq_none_iff]
  induction runs with
  | nil => exact iff_of_true rfl (List.forall_mem_nil _)
  | cons run runs ih =>
    rw [retryLoop,List.forall_mem_cons,← ih]
    split
    case isTrue h => rw [Option.map_eq_none_iff,and_iff_right (List.isEmpty_iff.mp h)]
    case isFalse h =>
      have hrun : runCmd run ≠ [] := fun he => h (List.isEmpty_iff.mpr he)
      exact iff_of_false nofun fun hnone => hrun hnone.1

theorem erase_lastPiece {line : Bytes} (hline : IsLine line) :
    (lastPiece 511 line ++ [NEWLINE]).filter (· ≠ NEWLINE) = lastPiece 511 line := by
  have hkept : (lastPiece 511 line).filter (· ≠ NEWLINE) = lastPiece 511 line := by
    rw [List.filter_eq_self]
    intro c hc
    exact decide_eq_true (ne_of_mem_of_not_mem (List.mem_of_mem_drop hc) hline.1)
  rw [List.filter_append,hkept]
  exact List.append_nil _

theorem main_ip_port {before : List Bytes} {last : Bytes} (hlines : ∀ line ∈ before ++ [last], IsLine line)
    {retries : List (Option Bytes)} (hretries : ∀ run ∈ retries, runCmd run = [])
    (later : List (Option Bytes)) :
    (main (retries ++ some (joinLines (before ++ [last])) :: later)).map Result.ip_port =
      some (lastPiece 511 last) := by
  have hvalue := runCmd_lines hlines
  have hrun : runCmd (some (joinLines (before ++ [last]))) ≠ [] := by
    rw [hvalue]
    simp
  have hlast : IsLine last := hlines last (List.mem_append_right before (List.mem_singleton_self last))
  rw [main,retryLoop_append hretries hrun,hvalue]
  exact congrArg some (erase_lastPiece hlast)

/-- The last line arrives whole, at the end of run_cmd and in main, exactly when it fits into
the buffer with its newline and the zero after it. -/
theorem last_line_whole_iff (before : List Bytes) (last : Bytes)
    (hlines : ∀ line ∈ before ++ [last], IsLine line) :
    (runCmd (some (joinLines (before ++ [last]))) = last ++ [NEWLINE] ↔ last.length < 511) ∧
    ∀ retries later : List (Option Bytes), (∀ run ∈ retries, runCmd run = []) →
      ((main (retries ++ some (joinLines (before ++ [last])) :: later)).map Result.ip_port = some last ↔
        last.length < 511) := by
  have hwhole : lastPiece 511 last = last ↔ last.length < 511 := lastPiece_eq_iff (by decide) last
  refine ⟨?_,fun retries later hretries => ?_⟩
  · rw [runCmd_lines hlines,List.append_left_inj,hwhole]
  · rw [main_ip_port hlines hretries,Option.some.injEq,hwhole]

/-- Two lines after a run that failed. -/
theorem last_line_whole_short :
    runCmd (some [49,10,50,51,10]) = [50,51,10] ∧
      (main [none,some [49,10,50,51,10]]).map Result.ip_port = some [50,51] := by
  have h := last_line_whole_iff [[49]] [50,51] (by decide)
  exact ⟨h.1.mpr (by decide),(h.2 [none] [] (by decide)).mpr (by decide)⟩

/-- With 511 characters before its newline, the newline is all that is left of a line. -/
theorem last_line_lost :
    let last : Bytes := List.replicate 511 97
    IsLine last ∧ last ≠ [] ∧ runCmd (some (joinLines [last])) = [NEWLINE] ∧
      runCmd (some (joinLines [last])) ≠ last ++ [NEWLINE] ∧
      (main [some (joinLines [last])]).map Result.ip_port = some [] := by
  intro last
  have hlen : last.length = 511 := List.length_replicate
  have hnot (c : UInt8) (hc : c ≠ 97) : c ∉ last := fun h => hc (List.eq_of_mem_replicate h)
  have hline : IsLine last := ⟨hnot NEWLINE (by decide),hnot 0 (by decide)⟩
  have hlines : ∀ line ∈ [] ++ [last], IsLine line := List.forall_mem_singleton.mpr hline
  have hpiece : lastPiece 511 last = [] := by
    rw [lastPiece,hlen]
    exact List.drop_eq_nil_of_le (Nat.le_of_eq hlen)
  have hvalue : runCmd (some (joinLines [last])) = [NEWLINE] := by
    rw [← List.nil_append [last],runCmd_lines hlines,hpiece,List.nil_append]
  have hmain := main_ip_port hlines (List.forall_mem_nil _) []
  rw [hpiece] at hmain
  refine ⟨hline,?_,hvalue,?_,hmain⟩
  · intro h
    rw [h] at hlen
    contradiction
  · rw [hvalue]
    intro h
    have hlengths := congrArg List.length h
    rw [List.length_append,List.length_singleton,hlen] at hlengths
    omega

end MyCpp.SystemCommand
