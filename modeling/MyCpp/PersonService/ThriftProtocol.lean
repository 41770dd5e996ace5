import Mathlib.Algebra.Order.Ring.Nat
import MyCpp.Library.StreamReader

/-! The protocol that the generated code of the person service writes to and reads from. It
belongs to the Thrift library, so it is a parameter; its laws are what the generated code
relies on: what was written is read back, and skip takes exactly one value. -/
namespace MyCpp.PersonService
open StreamReader

abbrev Bytes := List UInt8

def text (s : String) : Bytes := s.toUTF8.data.toList

/-- Texts are written with their length as an i32. -/
def Short (s : Bytes) : Prop := s.length < 2^31

instance (s : Bytes) : Decidable (Short s) := inferInstanceAs (Decidable (_ < _))

inductive TType where
  | bool | byte | i16 | i32 | i64 | double | string | struct | map | set | list
  deriving DecidableEq

inductive TMessageType where
  | call | reply | exception | oneway
  deriving DecidableEq

/-- What TApplicationException can say went wrong. -/
inductive ExceptionType where
  | unknown | unknownMethod | invalidMessageType | wrongMethodName | badSequenceId | missingResult
  | internalError | protocolError | invalidTransform | invalidProtocol | unsupportedClientType
  deriving DecidableEq

structure TApplicationException where
  type : ExceptionType
  message : Bytes
  deriving DecidableEq

/-- A field as it is written: what stands between its begin and its end is a value. -/
structure Field (W : Type) where
  name : Bytes := []
  type : TType
  id : Int16
  value : List W

/-- A protocol over wire symbols, such as TBinaryProtocol. `Encodes` says that symbols are one
complete value of a type. The header of a field says stop where the source finds T_STOP. -/
structure Protocol (W : Type) where
  Encodes : TType → List W → Prop
  writeMessageBegin : Bytes → TMessageType → Int32 → List W
  writeMessageEnd : List W
  writeStructBegin : Bytes → List W
  writeStructEnd : List W
  writeFieldBegin : Bytes → TType → Int16 → List W
  writeFieldEnd : List W
  writeFieldStop : List W
  writeI32 : Int32 → List W
  writeString : Bytes → List W
  writeException : TApplicationException → List W
  readMessageBegin : Reader W (Bytes × TMessageType × Int32)
  readMessageEnd : Reader W Unit
  readStructBegin : Reader W Unit
  readStructEnd : Reader W Unit
  readFieldBegin : Header W (TType × Int16)
  readFieldEnd : Reader W Unit
  readI32 : Reader W Int32
  readString : Reader W Bytes
  readException : Reader W TApplicationException
  skip : TType → Reader W Unit
  messageBegin_reads : ∀ name type seqid, Short name →
    readMessageBegin.Reads (writeMessageBegin name type seqid) (name,type,seqid)
  messageBegin_consumes : readMessageBegin.Consumes
  messageEnd_reads : readMessageEnd.Reads writeMessageEnd ()
  structBegin_reads : ∀ name, readStructBegin.Reads (writeStructBegin name) ()
  structEnd_reads : readStructEnd.Reads writeStructEnd ()
  fieldBegin_reads : ∀ name type id, readFieldBegin.Reads (writeFieldBegin name type id) (some (type,id))
  fieldStop_reads : readFieldBegin.Reads writeFieldStop none
  fieldEnd_reads : readFieldEnd.Reads writeFieldEnd ()
  i32_reads : ∀ v, readI32.Reads (writeI32 v) v
  string_reads : ∀ s, Short s → readString.Reads (writeString s) s
  exception_reads : ∀ x, Short x.message → readException.Reads (writeException x) x
  skip_reads : ∀ type bytes, Encodes type bytes → (skip type).Reads bytes ()

variable {W S ι : Type} (P : Protocol W)

namespace Protocol

def writeField (f : Field W) : List W :=
  P.writeFieldBegin f.name f.type f.id ++ (f.value ++ P.writeFieldEnd)

/-- The body of every generated write. -/
def writeStruct (name : Bytes) (fields : List (Field W)) : List W :=
  P.writeStructBegin name ++ (fields.flatMap P.writeField ++ P.writeFieldStop ++ P.writeStructEnd)

/-- The body of every generated read, with the switch over the fields of the struct. -/
def readStruct (field : S → TType × Int16 → Reader W S) (this : S) : Reader W S := do
  P.readStructBegin
  let this ← P.readFieldBegin.loop (fun header this => do
    let this ← field this header
    P.readFieldEnd
    pure this) this
  P.readStructEnd
  pure this

/-- A struct is read field by field, whoever wrote it, as long as each field is. -/
theorem readStruct_reads (name : Bytes) (toField : ι → Field W) (effect : S → ι → S) {items : List ι}
    {field : S → TType × Int16 → Reader W S}
    (h : ∀ i ∈ items, ∀ s, (field s ((toField i).type,(toField i).id)).Reads (toField i).value (effect s i))
    (s : S) : (P.readStruct field s).Reads (P.writeStruct name (items.map toField)) (items.foldl effect s) := by
  refine (P.structBegin_reads name).bind (.bind ?_ (P.structEnd_reads.last rfl))
  induction items generalizing s with
  | nil => exact Header.loop_stop P.fieldStop_reads _ s
  | cons i items ih =>
    have hlater := ih (fun i hi => h i (List.mem_cons_of_mem _ hi)) (effect s i)
    rw [List.map_cons,List.flatMap_cons,List.append_assoc,writeField,List.append_assoc]
    refine Header.loop_item (P.fieldBegin_reads (toField i).name _ _) ?_ hlater
    exact (h i List.mem_cons_self s).bind (P.fieldEnd_reads.last rfl)

end Protocol
end MyCpp.PersonService
