import Mathlib.Data.List.Infix

/-! An output stream whose failure is sticky: after a write has failed the later ones do
nothing, and nobody is told. -/
namespace MyCpp.StickyStream
variable {α : Type*}

/-- What becomes of data on its way to the device: all of it arrives, or the stream fails
after so many elements. -/
inductive Outcome where
  | done
  | failed (kept : ℕ)

/-- Data of a length arrives whole. -/
def Outcome.Keeps (length : ℕ) : Outcome → Prop
  | .done => True
  | .failed kept => length ≤ kept

structure Stream (α : Type*) where
  content : List α := []
  failed : Bool := false

namespace Stream

def write (s : Stream α) (data : List α) (r : Outcome) : Stream α :=
  if s.failed then s else
    match r with
    | .done => { s with content := s.content ++ data }
    | .failed kept => { content := s.content ++ data.take kept, failed := true }

/-- Closing flushes what is still buffered. -/
def close (s : Stream α) : Outcome → Stream α
  | .done => s
  | .failed kept => { content := s.content.take kept, failed := true }

def writes (s : Stream α) (es : List (List α × Outcome)) : Stream α := es.foldl (fun s e => s.write e.1 e.2) s

theorem writes_cons (s : Stream α) (data : List α) (r : Outcome) (es : List (List α × Outcome)) :
    s.writes ((data,r) :: es) = (s.write data r).writes es := rfl

theorem writes_failed {s : Stream α} (h : s.failed = true) (es : List (List α × Outcome)) : s.writes es = s := by
  induction es with
  | nil => rfl
  | cons e es ih =>
    have hw : s.write e.1 e.2 = s := if_pos h
    rw [writes_cons,hw,ih]

end Stream

/-- No write loses data: the first one that fails still keeps all of its own, and there is
nothing left to write behind it. -/
def Lossless : List (List α × Outcome) → Prop
  | [] => True
  | (_,.done) :: rest => Lossless rest
  | (data,.failed kept) :: rest => data.length ≤ kept ∧ ∀ e ∈ rest, e.1 = []

/-- Cutting a list off gives an extension of it only when neither does anything. -/
theorem take_eq_append_iff (data rest : List α) (kept : ℕ) :
    data.take kept = data ++ rest ↔ data.length ≤ kept ∧ rest = [] := by
  constructor
  · intro h
    have hlen := congrArg List.length h
    rw [List.length_take,List.length_append] at hlen
    exact ⟨by omega,List.eq_nil_of_length_eq_zero (by omega)⟩
  · rintro ⟨hlen,rfl⟩
    rw [List.take_of_length_le hlen,List.append_nil]

/-- What arrives of the writes is a first part of the data, and all of it exactly when no
write loses data. -/
theorem writes_content (s : Stream α) (h : s.failed = false) (es : List (List α × Outcome)) :
    ∃ arrived, (s.writes es).content = s.content ++ arrived ∧ arrived <+: es.flatMap Prod.fst ∧
      (arrived = es.flatMap Prod.fst ↔ Lossless es) := by
  induction es generalizing s with
  | nil => exact ⟨[],(List.append_nil _).symm,List.prefix_rfl,by simp [Lossless]⟩
  | cons e es ih =>
    obtain ⟨data,r⟩ := e
    rw [Stream.writes_cons,List.flatMap_cons]
    cases r with
    | done =>
      have hw : s.write data .done = { s with content := s.content ++ data } := if_neg (by simp [h])
      obtain ⟨arrived,hcontent,hpart,hall⟩ := ih (s.write data .done) (by rw [hw]; exact h)
      refine ⟨data ++ arrived,?_,(List.prefix_append_right_inj data).mpr hpart,?_⟩
      · rw [hcontent,hw,List.append_assoc]
      · rw [List.append_cancel_left_eq,hall,Lossless]
    | failed kept =>
      have hw : s.write data (.failed kept) = ⟨s.content ++ data.take kept,true⟩ := if_neg (by simp [h])
      rw [hw,Stream.writes_failed rfl]
      refine ⟨data.take kept,rfl,(List.take_prefix kept data).trans (List.prefix_append _ _),?_⟩
      rw [take_eq_append_iff,List.flatMap_eq_nil_iff,Lossless]

theorem closed_content_iff (es : List (List α × Outcome)) (r : Outcome) :
    ((({} : Stream α).writes es).close r).content = es.flatMap Prod.fst ↔
      Lossless es ∧ r.Keeps (es.flatMap Prod.fst).length := by
  obtain ⟨arrived,hcontent,hpart,hall⟩ := writes_content ({} : Stream α) rfl es
  rw [List.nil_append] at hcontent
  obtain ⟨rest,hrest⟩ := hpart
  rw [← hrest,List.self_eq_append_right] at hall
  rw [← hrest,← hall]
  cases r with
  | done =>
    rw [Stream.close,hcontent,List.self_eq_append_right]
    exact (and_iff_left trivial).symm
  | failed kept =>
    rw [Stream.close,hcontent,take_eq_append_iff,and_comm]
    refine and_congr_right fun hnil => ?_
    rw [hnil,List.append_nil]
    rfl

end MyCpp.StickyStream
