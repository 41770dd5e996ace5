import Mathlib.Data.List.Basic

/-! Readers that take what they need from the front of a stream and put nothing back, and the
loop that reads items until a header says stop. That a reader reads some bytes as a value is
stated in front of any rest, so the statements compose. -/
namespace MyCpp.StreamReader
variable {W α β κ S : Type}

/-- A reader fails or returns a value and what is left of its input. -/
structure Reader (W α : Type) where
  run : List W → Option (α × List W)
  le : ∀ input a rest, run input = some (a,rest) → rest.length ≤ input.length

namespace Reader

def pure (a : α) : Reader W α where
  run input := some (a,input)
  le := by
    intro input b rest h
    cases h
    exact Nat.le_refl _

def bind (x : Reader W α) (f : α → Reader W β) : Reader W β where
  run input := (x.run input).bind fun r => (f r.1).run r.2
  le := by
    intro input b rest h
    obtain ⟨⟨a,mid⟩,hx,hf⟩ := Option.bind_eq_some_iff.mp h
    exact Nat.le_trans ((f a).le mid b rest hf) (x.le input a mid hx)

def fail : Reader W α where
  run _ := none
  le := by
    intro input a rest h
    cases h

instance : Monad (Reader W) where
  pure := pure
  bind := bind

theorem pure_bind (a : α) (f : α → Reader W β) : (Pure.pure a >>= f) = f a := rfl

/-- The reader takes at least one symbol. -/
def Consumes (x : Reader W α) : Prop := ∀ input a rest, x.run input = some (a,rest) → rest.length < input.length

theorem Consumes.bind {x : Reader W α} (hx : x.Consumes) (f : α → Reader W β) : (x >>= f).Consumes := by
  intro input b rest h
  obtain ⟨⟨a,mid⟩,ha,hb⟩ := Option.bind_eq_some_iff.mp h
  exact Nat.lt_of_le_of_lt ((f a).le mid b rest hb) (hx input a mid ha)

/-- The bytes are read as the value and nothing behind them is touched. -/
def Reads (x : Reader W α) (bytes : List W) (a : α) : Prop := ∀ rest, x.run (bytes ++ rest) = some (a,rest)

theorem reads_pure (a : α) : Reads (Pure.pure a : Reader W α) [] a := fun _ => rfl

theorem Reads.bind {x : Reader W α} {f : α → Reader W β} {bytes more : List W} {a : α} {b : β}
    (hx : x.Reads bytes a) (hf : (f a).Reads more b) : (x >>= f).Reads (bytes ++ more) b := by
  intro rest
  change (x.run (bytes ++ more ++ rest)).bind (fun r => (f r.1).run r.2) = some (b,rest)
  rw [List.append_assoc,hx (more ++ rest)]
  exact hf rest

theorem Reads.last {x : Reader W α} {f : α → Reader W β} {bytes : List W} {a : α} {b : β}
    (hx : x.Reads bytes a) (hf : f a = Pure.pure b) : (x >>= f).Reads bytes b := by
  have h := hx.bind (f := f) (hf ▸ reads_pure b)
  rwa [List.append_nil] at h

theorem Reads.run_eq {x : Reader W α} {bytes : List W} {a : α} (h : x.Reads bytes a) :
    x.run bytes = some (a,[]) := by
  have h := h []
  rwa [List.append_nil] at h

end Reader

/-- A reader of headers, which says stop or takes at least one symbol. -/
structure Header (W κ : Type) extends Reader W (Option κ) where
  lt : ∀ input k rest, run input = some (some k,rest) → rest.length < input.length

namespace Header
open Reader

/-- while(true): read a header, leave at stop, else read the body of the item. -/
@[semireducible] def loopRun (header : Header W κ) (body : κ → S → Reader W S) (s : S) (input : List W) :
    Option (S × List W) :=
  match _ : header.run input with
  | none => none
  | some (none,rest) => some (s,rest)
  | some (some k,rest) => match _ : (body k s).run rest with
    | none => none
    | some (t,rest) => loopRun header body t rest
termination_by input.length
decreasing_by
  exact Nat.lt_of_le_of_lt ((body k s).le _ _ _ ‹_›) (header.lt _ _ _ ‹_›)

theorem loopRun_stop {header : Header W κ} {input rest : List W} (h : header.run input = some (none,rest))
    (body : κ → S → Reader W S) (s : S) : header.loopRun body s input = some (s,rest) := by
  rw [loopRun]
  split
  case h_1 hn => rw [hn] at h; cases h
  case h_2 hs => rw [hs] at h; cases h; rfl
  case h_3 hs => rw [hs] at h; cases h

theorem loopRun_item {header : Header W κ} {input mid rest : List W} {k : κ}
    (h : header.run input = some (some k,mid)) {body : κ → S → Reader W S} {s t : S}
    (hb : (body k s).run mid = some (t,rest)) : header.loopRun body s input = header.loopRun body t rest := by
  rw [loopRun]
  split
  case h_1 hn => rw [hn] at h; cases h
  case h_2 hs => rw [hs] at h; cases h
  case h_3 hs =>
    rw [hs] at h
    cases h
    split
    case h_1 hn => rw [hn] at hb; cases hb
    case h_2 ht => rw [ht] at hb; cases hb; rfl

theorem loopRun_le (header : Header W κ) (body : κ → S → Reader W S) (s : S) (input : List W) (t : S)
    (rest : List W) (h : header.loopRun body s input = some (t,rest)) : rest.length ≤ input.length := by
  fun_induction loopRun header body s input with
  | case1 => cases h
  | case2 s input left hs =>
    cases h
    exact header.le _ _ _ hs
  | case3 => cases h
  | case4 s input k mid hs u left hb ih =>
    have hmid := header.lt _ _ _ hs
    have hleft := (body k s).le _ _ _ hb
    exact Nat.le_trans (ih h) (Nat.le_trans hleft (Nat.le_of_lt hmid))

/-- The loop as a reader. -/
def loop (header : Header W κ) (body : κ → S → Reader W S) (s : S) : Reader W S where
  run := header.loopRun body s
  le := header.loopRun_le body s

theorem loop_stop {header : Header W κ} {bytes : List W} (h : header.Reads bytes none)
    (body : κ → S → Reader W S) (s : S) : (header.loop body s).Reads bytes s :=
  fun rest => loopRun_stop (h rest) body s

theorem loop_item {header : Header W κ} {head item more : List W} {k : κ} (h : header.Reads head (some k))
    {body : κ → S → Reader W S} {s t u : S} (hb : (body k s).Reads item t)
    (hl : (header.loop body t).Reads more u) : (header.loop body s).Reads (head ++ (item ++ more)) u := by
  intro rest
  rw [List.append_assoc,List.append_assoc]
  exact (loopRun_item (h _) (hb _)).trans (hl rest)

end Header
end MyCpp.StreamReader
