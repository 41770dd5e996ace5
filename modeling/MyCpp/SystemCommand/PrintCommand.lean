import MyCpp.SystemCommand.RunCommand

/-! RunCmd of DetachableThreadDemo.cpp, which the detached thread runs. It prints what it reads piece
by piece, so no line is too long for it; only what stands behind a zero in a piece is lost. -/
namespace MyCpp.SystemCommand
open LineInput

/-- The loop of RunCmd, over what is left to read and what is printed. -/
def printLoop (output cout : Bytes) : Bytes :=
  match _ : fgets NEWLINE 512 output with
  | none => cout
  | some (buff,rest) => printLoop rest (cout ++ cString buff)
termination_by output.length
decreasing_by exact fgets_rest_lt (show 1 < 512 by decide) ‹_›

/-- RunCmd, with the output of the command unless popen fails. -/
def printCmd : Option Bytes → Bytes
  | none => []
  | some output => printLoop output []

theorem printLoop_nil (cout : Bytes) : printLoop [] cout = cout := by
  rw [printLoop]
  split
  case h_1 => rfl
  case h_2 h => exact absurd h nofun

theorem printLoop_step {output : Bytes} (h : output ≠ []) (cout : Bytes) :
    printLoop output cout =
      printLoop (takeLine NEWLINE 511 output).2 (cout ++ cString (takeLine NEWLINE 511 output).1) := by
  have hget : fgets NEWLINE 512 output = some (takeLine NEWLINE 511 output) := fgets_eq_some NEWLINE 512 h
  rw [printLoop]
  split
  case h_1 hnone => rw [hnone] at hget; contradiction
  case h_2 hsome =>
    rw [hsome,Option.some.injEq] at hget
    rw [← hget]

theorem cString_sublist (buff : Bytes) : (cString buff).Sublist buff := List.takeWhile_sublist _

theorem zero_not_mem_cString (buff : Bytes) : 0 ∉ cString buff := by
  intro h
  have hzero := List.mem_takeWhile_imp h
  simp at hzero

/-- What is printed is part of the output, and has no zero in it. -/
theorem printLoop_part (output cout : Bytes) :
    ∃ printed, printLoop output cout = cout ++ printed ∧ printed.Sublist output ∧ 0 ∉ printed ∧
      (0 ∉ output → printed = output) := by
  induction hn : output.length using Nat.strong_induction_on generalizing output cout with
  | _ n ih =>
    by_cases hne : output = []
    · subst hne
      exact ⟨[],by rw [printLoop_nil,List.append_nil],.refl [],nofun,fun _ => rfl⟩
    have happend := takeLine_append NEWLINE 511 output
    have hless := fgets_rest_lt (show 1 < 512 by decide) (fgets_eq_some NEWLINE 512 hne)
    obtain ⟨printed,hloop,hsub,hzero,hall⟩ :=
      ih _ (hn ▸ hless) _ (cout ++ cString (takeLine NEWLINE 511 output).1) rfl
    refine ⟨cString (takeLine NEWLINE 511 output).1 ++ printed,?_,?_,?_,?_⟩
    · rw [printLoop_step hne,hloop,List.append_assoc]
    · have hboth := (cString_sublist (takeLine NEWLINE 511 output).1).append hsub
      rwa [happend] at hboth
    · rw [List.mem_append,not_or]
      exact ⟨zero_not_mem_cString _,hzero⟩
    · intro hnone
      rw [← happend,List.mem_append,not_or] at hnone
      rw [cString_eq hnone.1,hall hnone.2,happend]

/-- RunCmd prints the output of the command, lines of any length included, exactly when there is no
zero in it; else it prints a part of it. -/
theorem output_printed_iff (output : Bytes) :
    (printCmd (some output) = output ↔ 0 ∉ output) ∧ (printCmd (some output)).Sublist output := by
  obtain ⟨printed,hloop,hsub,hzero,hall⟩ := printLoop_part output []
  have hprinted : printCmd (some output) = printed := hloop
  rw [hprinted]
  refine ⟨⟨fun h => h ▸ hzero,hall⟩,hsub⟩

end MyCpp.SystemCommand
