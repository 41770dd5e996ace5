import Mathlib.Algebra.Order.Ring.Nat
import MyCpp.Library.StreamReader

/-! Numbers of fixed width in network byte order, and readers for them. -/
namespace MyCpp.BigEndian
open StreamReader

/-- The last `width` bytes of a number, the most significant first. -/
def encode : ℕ → ℕ → List UInt8
  | 0, _ => []
  | width+1, n => encode width (n / 256) ++ [UInt8.ofNat n]

def decode (bytes : List UInt8) : ℕ := bytes.foldl (fun n b => n * 256 + b.toNat) 0

theorem length_encode (width n : ℕ) : (encode width n).length = width := by
  induction width generalizing n with
  | zero => rfl
  | succ width ih => rw [encode,List.length_append,ih]; rfl

theorem decode_encode {width n : ℕ} (h : n < 256^width) : decode (encode width n) = n := by
  induction width generalizing n with
  | zero =>
    have hn : n = 0 := Nat.lt_one_iff.mp h
    rw [hn]
    rfl
  | succ width ih =>
    have hdiv : n / 256 < 256^width := Nat.div_lt_of_lt_mul (by rwa [Nat.pow_succ,Nat.mul_comm] at h)
    have hlast : (UInt8.ofNat n).toNat = n % 256 := UInt8.toNat_ofNat'
    rw [encode,decode,List.foldl_append]
    change decode (encode width (n / 256)) * 256 + (UInt8.ofNat n).toNat = n
    rw [ih hdiv,hlast]
    exact Nat.div_add_mod' n 256

def take (count : ℕ) : Reader UInt8 (List UInt8) where
  run input := if count ≤ input.length then some (input.take count,input.drop count) else none
  le := by
    intro input a rest h
    rw [Option.ite_none_right_eq_some,Option.some.injEq,Prod.mk.injEq] at h
    rw [← h.2.2,List.length_drop]
    exact Nat.sub_le _ _

theorem take_reads {count : ℕ} {bytes : List UInt8} (h : bytes.length = count) :
    (take count).Reads bytes bytes := by
  intro rest
  have hle : count ≤ (bytes ++ rest).length := by
    rw [List.length_append,h]
    exact Nat.le_add_right _ _
  simp only [take,if_pos hle,List.take_left' h,List.drop_left' h]

def number (width : ℕ) : Reader UInt8 ℕ := do
  let bytes ← take width
  pure (decode bytes)

theorem number_reads {width n : ℕ} (h : n < 256^width) : (number width).Reads (encode width n) n := by
  refine (take_reads (length_encode width n)).last ?_
  rw [decode_encode h]

theorem take_consumes {count : ℕ} (hc : 0 < count) : (take count).Consumes := by
  intro input bytes rest h
  simp only [take,Option.ite_none_right_eq_some,Option.some.injEq,Prod.mk.injEq] at h
  rw [← h.2.2,List.length_drop]
  omega

end MyCpp.BigEndian
