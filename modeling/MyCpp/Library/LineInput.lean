import Mathlib.Data.List.Basic
import Mathlib.Data.Nat.Init

/-! Reading a text line by line into a buffer of fixed size. A line that does not fit comes
in pieces, and the last of them may hold nothing but the end of the line. -/
namespace MyCpp.LineInput
variable {α : Type*} [DecidableEq α] {newline : α}

/-- Up to `room` characters, no further than the end of the line, and what is left. -/
def takeLine (newline : α) : ℕ → List α → List α × List α
  | 0, input => ([],input)
  | _ + 1, [] => ([],[])
  | room + 1, c :: input =>
    if c = newline then ([c],input)
    else
      let (line,rest) := takeLine newline room input
      (c :: line,rest)

/-- fgets with a buffer of `size` characters, one of which ends the string. There is
nothing to return at the end of the input. -/
def fgets (newline : α) (size : ℕ) (input : List α) : Option (List α × List α) :=
  if input.isEmpty then none else some (takeLine newline (size - 1) input)

theorem fgets_eq_some (newline : α) (size : ℕ) {input : List α} (hi : input ≠ []) :
    fgets newline size input = some (takeLine newline (size-1) input) := by
  rw [fgets,List.isEmpty_eq_false_iff.mpr hi]
  rfl

theorem takeLine_append (newline : α) (room : ℕ) (input : List α) :
    (takeLine newline room input).1 ++ (takeLine newline room input).2 = input := by
  induction room generalizing input with
  | zero => rfl
  | succ room ih =>
    cases input with
    | nil => rfl
    | cons c input =>
      rw [takeLine]
      split
      · rfl
      · exact congrArg (c :: ·) (ih input)

theorem takeLine_ne_nil (newline : α) {room : ℕ} (h : 0 < room) {input : List α} (hi : input ≠ []) :
    (takeLine newline room input).1 ≠ [] := by
  obtain ⟨room,rfl⟩ := Nat.exists_eq_succ_of_ne_zero (Nat.ne_zero_of_lt h)
  cases input with
  | nil => exact absurd rfl hi
  | cons c input =>
    rw [takeLine]
    split <;> simp

/-- Every call that returns something brings the end of the input closer. -/
theorem fgets_rest_lt {size : ℕ} (hs : 1 < size) {input buff rest : List α}
    (h : fgets newline size input = some (buff,rest)) : rest.length < input.length := by
  have hi : input ≠ [] := by
    rintro rfl
    contradiction
  have htake := Option.some.inj ((fgets_eq_some newline size hi).symm.trans h)
  have happend := takeLine_append newline (size-1) input
  have hne := takeLine_ne_nil newline (Nat.sub_pos_of_lt hs) hi
  rw [htake] at happend hne
  rw [← happend,List.length_append]
  exact Nat.lt_add_of_pos_left (List.length_pos_of_ne_nil hne)

theorem takeLine_short {room : ℕ} {line : List α} (hn : newline ∉ line) (hl : line.length < room)
    (rest : List α) : takeLine newline room (line ++ newline :: rest) = (line ++ [newline],rest) := by
  induction line generalizing room with
  | nil =>
    obtain ⟨room,rfl⟩ := Nat.exists_eq_succ_of_ne_zero (Nat.ne_zero_of_lt hl)
    exact if_pos rfl
  | cons c line ih =>
    obtain ⟨room,rfl⟩ := Nat.exists_eq_succ_of_ne_zero (Nat.ne_zero_of_lt hl)
    rw [List.mem_cons,not_or] at hn
    rw [List.cons_append,takeLine,if_neg (Ne.symm hn.1),ih hn.2 (Nat.lt_of_succ_lt_succ hl)]
    rfl

/-- Of a line that does not fit, the first part fills the buffer. -/
theorem takeLine_long {room : ℕ} {line : List α} (hn : newline ∉ line) (hl : room ≤ line.length)
    (rest : List α) : takeLine newline room (line ++ rest) = (line.take room,line.drop room ++ rest) := by
  induction room generalizing line with
  | zero => rfl
  | succ room ih =>
    cases line with
    | nil => simp at hl
    | cons c line =>
      rw [List.mem_cons,not_or] at hn
      rw [List.cons_append,takeLine,if_neg (Ne.symm hn.1),ih hn.2 (Nat.le_of_succ_le_succ hl)]
      rfl

omit [DecidableEq α]

/-- What is left of a line for the piece that holds its end. -/
def lastPiece (room : ℕ) (line : List α) : List α := line.drop (room * (line.length / room))

theorem lastPiece_drop {room : ℕ} (h : 0 < room) {line : List α} (hl : room ≤ line.length) :
    lastPiece room (line.drop room) = lastPiece room line := by
  rw [lastPiece,lastPiece,List.drop_drop,List.length_drop,Nat.div_eq_sub_div h hl,Nat.mul_succ,Nat.add_comm]

theorem lastPiece_short {room : ℕ} {line : List α} (hl : line.length < room) : lastPiece room line = line := by
  rw [lastPiece,Nat.div_eq_of_lt hl,Nat.mul_zero,List.drop_zero]

theorem lastPiece_eq_iff {room : ℕ} (h : 0 < room) (line : List α) :
    lastPiece room line = line ↔ line.length < room := by
  refine ⟨fun he => ?_,lastPiece_short⟩
  by_contra hlong
  have hlen := congrArg List.length he
  have hpos : 0 < line.length / room := Nat.div_pos (Nat.le_of_not_lt hlong) h
  have hmul : 0 < room * (line.length / room) := Nat.mul_pos h hpos
  rw [lastPiece,List.length_drop] at hlen
  omega

end MyCpp.LineInput
