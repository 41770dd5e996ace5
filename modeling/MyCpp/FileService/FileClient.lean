import Mathlib.Algebra.Order.Ring.Nat
import MyCpp.Library.StickyStream

/-! FileClient::GetFile of file_client.cxx. What the server delivers and what the disk makes
of the writes belong to the environment; the client looks at the final status only. -/
namespace MyCpp.FileService
open StickyStream

abbrev Bytes := List UInt8

inductive Status where
  | ok
  | error (message : String)
  deriving DecidableEq

def receivedLine (size : Nat) : String := "Received chunk of size: " ++ toString size ++ " bytes\n"

def successLine (total : Nat) : String :=
  "Successfully received file. Total bytes: " ++ toString total ++ "\n"

def failureLine (message : String) : String := "File transfer failed: " ++ message ++ "\n"

/-- One transfer: each chunk that Read delivers with what becomes of its write, the flush
when the file is closed, and the status at the end. -/
structure Transfer where
  openOk : Bool
  chunks : List (Bytes × Outcome)
  flush : Outcome
  status : Status

/-- The values of size_t. -/
def SIZE : Nat := 2^64

/-- The locals of GetFile that its loop changes, and cout. -/
structure Receiving where
  output : Stream UInt8 := {}
  bytes_received : Nat := 0
  cout : List String := []

/-- The body of the loop. The state of the stream is not looked at. -/
def receive (c : Receiving) (chunk : Bytes × Outcome) : Receiving where
  output := c.output.write chunk.1 chunk.2
  bytes_received := (c.bytes_received + chunk.1.length) % SIZE
  cout := c.cout ++ [receivedLine chunk.1.length]

structure Result where
  file : Option Bytes
  cout : List String := []
  cerr : List String := []

/-- GetFile, with what is found under the name of the output file. Opening it truncates it. -/
def getFile (output_file : String) (existing : Option Bytes) (t : Transfer) : Result :=
  if t.openOk then
    let c := t.chunks.foldl receive {}
    let output := c.output.close t.flush
    { file := some output.content
      cout := c.cout ++ match t.status with
        | .ok => [successLine c.bytes_received]
        | .error message => [failureLine message] }
  else { file := existing, cerr := ["Error opening output file: " ++ output_file ++ "\n"] }

def Transfer.received (t : Transfer) : Bytes := t.chunks.flatMap Prod.fst

theorem foldl_receive (chunks : List (Bytes × Outcome)) (c : Receiving) (hc : c.bytes_received < SIZE) :
    chunks.foldl receive c = ⟨c.output.writes chunks,
      (c.bytes_received + (chunks.flatMap Prod.fst).length) % SIZE,
      c.cout ++ chunks.map fun chunk => receivedLine chunk.1.length⟩ := by
  induction chunks generalizing c with
  | nil =>
    rw [List.flatMap_nil,List.length_nil,Nat.add_zero,Nat.mod_eq_of_lt hc,List.map_nil,List.append_nil]
    rfl
  | cons chunk chunks ih =>
    rw [List.foldl_cons,ih _ (Nat.mod_lt _ (by decide))]
    simp only [receive,Nat.mod_add_mod,List.flatMap_cons,List.length_append,Nat.add_assoc,List.map_cons,
      List.append_assoc,List.singleton_append]
    rfl

theorem successLine_inj {a b : Nat} (h : successLine a = successLine b) : a = b := by
  unfold successLine at h
  have hstart := (String.append_left_inj _).mp h
  have hdigits : Nat.toDigits 10 a = Nat.toDigits 10 b := by
    rw [← Nat.toList_repr,← Nat.toList_repr]
    exact congrArg String.toList ((String.append_right_inj _).mp hstart)
  rw [← Nat.ofDigitChars_ten_toDigits (n := a),hdigits,Nat.ofDigitChars_ten_toDigits]

theorem head_line {start : String} {c : Char} (h : start.toList.head? = some c) (middle stop : String) :
    (start ++ middle ++ stop).toList.head? = some c := by
  rw [String.toList_append,String.toList_append,List.append_assoc,List.head?_append,h]
  rfl

theorem successLine_ne {line : String} {c : Char} (h : line.toList.head? = some c) (hc : c ≠ 'S') (total : Nat) :
    successLine total ≠ line := by
  rintro rfl
  have hs : (successLine total).toList.head? = some 'S' := head_line (by simp) _ _
  rw [hs] at h
  exact hc (Option.some.inj h).symm

theorem getFile_opened (output_file : String) (existing : Option Bytes) {t : Transfer} (h : t.openOk = true) :
    getFile output_file existing t =
      { file := some ((({} : Stream UInt8).writes t.chunks).close t.flush).content
        cout := (t.chunks.map fun chunk => receivedLine chunk.1.length) ++ match t.status with
          | .ok => [successLine (t.received.length % SIZE)]
          | .error message => [failureLine message] } := by
  rw [getFile,if_pos h,foldl_receive _ _ (by decide),Nat.zero_add]
  rfl

/-- The success line is printed exactly for a status that is ok, whatever became of the
writes, with the number of bytes that were delivered. -/
theorem success_printed_iff (output_file : String) (existing : Option Bytes) {t : Transfer} (h : t.openOk = true)
    (total : Nat) : successLine total ∈ (getFile output_file existing t).cout ↔
      t.status = .ok ∧ total = t.received.length % SIZE := by
  have hchunks : successLine total ∉ t.chunks.map fun chunk => receivedLine chunk.1.length := by
    intro hm
    obtain ⟨chunk,_,he⟩ := List.mem_map.mp hm
    exact successLine_ne (head_line (c := 'R') (by simp) _ _) (by decide) total he.symm
  rw [getFile_opened output_file existing h,List.mem_append,or_iff_right hchunks]
  cases t.status with
  | ok =>
    rw [List.mem_singleton,and_iff_right rfl]
    constructor
    · exact successLine_inj
    · rintro rfl
      rfl
  | error message =>
    rw [List.mem_singleton]
    constructor
    · intro he
      exact absurd he (successLine_ne (head_line (c := 'F') (by simp) _ _) (by decide) total)
    · rintro ⟨hs,_⟩
      cases hs

/-- For every transfer: a printed success means a complete file and its size, exactly when
the file was not opened, or the status is an error, or no byte was lost on the way to the
disk and their number fits into size_t. -/
theorem success_complete_iff (output_file : String) (existing : Option Bytes) (t : Transfer) :
    (∀ total, successLine total ∈ (getFile output_file existing t).cout →
      (getFile output_file existing t).file = some t.received ∧ total = t.received.length) ↔
    (t.openOk = true → t.status = .ok →
      (Lossless t.chunks ∧ t.flush.Keeps t.received.length) ∧ t.received.length < SIZE) := by
  cases hopen : t.openOk with
  | false => simp [getFile,hopen]
  | true =>
    have hfile : (getFile output_file existing t).file = some t.received ↔
        Lossless t.chunks ∧ t.flush.Keeps t.received.length := by
      rw [getFile_opened output_file existing hopen,Option.some.injEq]
      exact closed_content_iff t.chunks t.flush
    have htotal : t.received.length % SIZE = t.received.length ↔ t.received.length < SIZE :=
      Nat.mod_eq_iff_lt (by decide)
    simp only [success_printed_iff output_file existing hopen,hfile]
    constructor
    · intro hsound _ hok
      obtain ⟨hkept,hlen⟩ := hsound _ ⟨hok,rfl⟩
      exact ⟨hkept,htotal.mp hlen⟩
    · rintro hcond total ⟨hok,rfl⟩
      obtain ⟨hkept,hlen⟩ := hcond trivial hok
      exact ⟨hkept,htotal.mpr hlen⟩

/-- Two chunks, the disk full after the first byte. -/
def fullDisk : Transfer where
  openOk := true
  chunks := [([104,105],.failed 1),([33],.done)]
  flush := .done
  status := .ok

/-- Three bytes are reported and one is in the file. -/
theorem truncated_file_reported : successLine 3 ∈ (getFile "received.json" none fullDisk).cout ∧
    (getFile "received.json" none fullDisk).file = some [104] ∧
    (getFile "received.json" none fullDisk).file ≠ some fullDisk.received := by
  have hprinted : successLine 3 ∈ (getFile "received.json" none fullDisk).cout :=
    (success_printed_iff _ _ rfl 3).mpr ⟨rfl,rfl⟩
  exact ⟨hprinted,rfl,by decide⟩

end MyCpp.FileService
