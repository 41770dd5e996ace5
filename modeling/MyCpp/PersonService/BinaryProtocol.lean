import MyCpp.Library.BigEndian
import MyCpp.PersonService.ThriftProtocol

/-! TBinaryProtocol, the protocol that client.cpp and server.cpp choose, as its specification
describes the bytes. It has the laws that the generated code relies on. -/
namespace MyCpp.PersonService.Binary
open StreamReader BigEndian

def TType.all : List TType := [.bool,.byte,.double,.i16,.i32,.i64,.string,.struct,.map,.set,.list]

def TType.code : TType → UInt8
  | .bool => 2
  | .byte => 3
  | .double => 4
  | .i16 => 6
  | .i32 => 8
  | .i64 => 10
  | .string => 11
  | .struct => 12
  | .map => 13
  | .set => 14
  | .list => 15

def T_STOP : UInt8 := 0

def messageTypes : List TMessageType := [.call,.reply,.exception,.oneway]

def messageCode : TMessageType → ℕ
  | .call => 1
  | .reply => 2
  | .exception => 3
  | .oneway => 4

def exceptionTypes : List ExceptionType :=
  [.unknown,.unknownMethod,.invalidMessageType,.wrongMethodName,.badSequenceId,.missingResult,
   .internalError,.protocolError,.invalidTransform,.invalidProtocol,.unsupportedClientType]

def VERSION_1 : ℕ := 0x80010000

def writeI16 (v : Int16) : List UInt8 := encode 2 v.toUInt16.toNat

def writeI32 (v : Int32) : List UInt8 := encode 4 v.toUInt32.toNat

def writeString (s : Bytes) : List UInt8 := encode 4 s.length ++ s

def writeMessageBegin (name : Bytes) (type : TMessageType) (seqid : Int32) : List UInt8 :=
  encode 4 (VERSION_1 + messageCode type) ++ (writeString name ++ writeI32 seqid)

def writeFieldBegin (type : TType) (id : Int16) : List UInt8 := [TType.code type] ++ writeI16 id

/-- A value that is one of a list, or a failure. -/
def lift {α : Type} : Option α → Reader UInt8 α
  | none => Reader.fail
  | some a => pure a

def readType (code : List UInt8) : Reader UInt8 TType := lift (TType.all.find? fun t => [TType.code t] = code)

def readI16 : Reader UInt8 Int16 := do
  let n ← number 2
  pure (UInt16.ofNat n).toInt16

def readI32 : Reader UInt8 Int32 := do
  let n ← number 4
  pure (UInt32.ofNat n).toInt32

/-- A size, which must not be negative. -/
def readSize : Reader UInt8 ℕ := do
  let n ← number 4
  if n < 2^31 then pure n else Reader.fail

def readString : Reader UInt8 Bytes := do
  let size ← readSize
  take size

/-- The name and type of a message without a version stand in the other order. -/
def readMessageBegin : Reader UInt8 (Bytes × TMessageType × Int32) := do
  let n ← number 4
  if n < 2^31 then
    let name ← take n
    let code ← number 1
    let type ← lift (messageTypes.find? fun t => messageCode t = code)
    let seqid ← readI32
    pure (name,type,seqid)
  else if n / 2^16 = VERSION_1 / 2^16 then
    let type ← lift (messageTypes.find? fun t => messageCode t = n % 256)
    let name ← readString
    let seqid ← readI32
    pure (name,type,seqid)
  else Reader.fail

def fieldBegin : Reader UInt8 (Option (TType × Int16)) := do
  let code ← take 1
  if code = [T_STOP] then pure none
  else
    let type ← readType code
    let id ← readI16
    pure (some (type,id))

def readFieldBegin : Header UInt8 (TType × Int16) where
  toReader := fieldBegin
  lt input k rest h := ((take_consumes (by decide)).bind _) input (some k) rest h

def repeated (x : Reader UInt8 Unit) : ℕ → Reader UInt8 Unit
  | 0 => pure ()
  | n+1 => do
    x
    repeated x n

def skipBytes (count : ℕ) : Reader UInt8 Unit := do
  let _ ← take count
  pure ()

/-- The elements of a list or set, each skipped by its type. -/
def skipItems (skip : TType → Reader UInt8 Unit) : Reader UInt8 Unit := do
  let code ← take 1
  let type ← readType code
  let size ← readSize
  repeated (skip type) size

def skipEntries (skip : TType → Reader UInt8 Unit) : Reader UInt8 Unit := do
  let code ← take 1
  let key ← readType code
  let code ← take 1
  let value ← readType code
  let size ← readSize
  repeated (do
    skip key
    skip value) size

/-- skip, to a depth of nesting. -/
def skipTo : ℕ → TType → Reader UInt8 Unit
  | _, .bool => skipBytes 1
  | _, .byte => skipBytes 1
  | _, .i16 => skipBytes 2
  | _, .i32 => skipBytes 4
  | _, .i64 => skipBytes 8
  | _, .double => skipBytes 8
  | _, .string => do
    let _ ← readString
    pure ()
  | depth+1, .struct => readFieldBegin.loop (fun header _ => skipTo depth header.1) ()
  | depth+1, .set => skipItems (skipTo depth)
  | depth+1, .list => skipItems (skipTo depth)
  | depth+1, .map => skipEntries (skipTo depth)
  | 0, _ => Reader.fail

/-- The bytes of a value of a type, nested to a depth. -/
inductive EncodesTo : ℕ → TType → List UInt8 → Prop where
  | bool {depth : ℕ} {bytes : List UInt8} (h : bytes.length = 1) : EncodesTo depth .bool bytes
  | byte {depth : ℕ} {bytes : List UInt8} (h : bytes.length = 1) : EncodesTo depth .byte bytes
  | i16 {depth : ℕ} {bytes : List UInt8} (h : bytes.length = 2) : EncodesTo depth .i16 bytes
  | i32 {depth : ℕ} {bytes : List UInt8} (h : bytes.length = 4) : EncodesTo depth .i32 bytes
  | i64 {depth : ℕ} {bytes : List UInt8} (h : bytes.length = 8) : EncodesTo depth .i64 bytes
  | double {depth : ℕ} {bytes : List UInt8} (h : bytes.length = 8) : EncodesTo depth .double bytes
  | string {depth : ℕ} {s : Bytes} (h : Short s) : EncodesTo depth .string (writeString s)
  | struct {depth : ℕ} {fields : List (Field UInt8)} (h : ∀ f ∈ fields, EncodesTo depth f.type f.value) :
      EncodesTo (depth+1) .struct
        (fields.flatMap (fun f => writeFieldBegin f.type f.id ++ f.value) ++ [T_STOP])
  | set {depth : ℕ} {type : TType} {items : List (List UInt8)} (hl : items.length < 2^31)
      (h : ∀ item ∈ items, EncodesTo depth type item) :
      EncodesTo (depth+1) .set ([TType.code type] ++ (encode 4 items.length ++ items.flatten))
  | list {depth : ℕ} {type : TType} {items : List (List UInt8)} (hl : items.length < 2^31)
      (h : ∀ item ∈ items, EncodesTo depth type item) :
      EncodesTo (depth+1) .list ([TType.code type] ++ (encode 4 items.length ++ items.flatten))
  | map {depth : ℕ} {key value : TType} {entries : List (List UInt8 × List UInt8)}
      (hl : entries.length < 2^31) (hk : ∀ e ∈ entries, EncodesTo depth key e.1)
      (hv : ∀ e ∈ entries, EncodesTo depth value e.2) :
      EncodesTo (depth+1) .map ([TType.code key] ++ ([TType.code value] ++
        (encode 4 entries.length ++ (entries.map fun e => e.1 ++ e.2).flatten)))

theorem type_reads (type : TType) {α : Type} {f : TType → Reader UInt8 α} {bytes : List UInt8} {a : α}
    (h : (f type).Reads bytes a) : (do
      let code ← take 1
      let type ← readType code
      f type : Reader UInt8 α).Reads ([TType.code type] ++ bytes) a := by
  have hcode : readType [TType.code type] = pure type := by cases type <;> rfl
  refine (take_reads (rfl : [TType.code type].length = 1)).bind ?_
  rw [hcode]
  exact h

theorem size_reads {n : ℕ} (h : n < 2^31) : readSize.Reads (encode 4 n) n := by
  refine (number_reads (by omega)).last ?_
  rw [if_pos h]

theorem string_reads {s : Bytes} (h : Short s) : readString.Reads (writeString s) s :=
  (size_reads h).bind (take_reads rfl)

theorem i16_reads (v : Int16) : readI16.Reads (writeI16 v) v :=
  (number_reads v.toUInt16.toNat_lt).last (by simp)

theorem i32_reads (v : Int32) : readI32.Reads (writeI32 v) v :=
  (number_reads v.toUInt32.toNat_lt).last (by simp)

theorem skipBytes_reads {count : ℕ} {bytes : List UInt8} (h : bytes.length = count) :
    (skipBytes count).Reads bytes () :=
  (take_reads h).last rfl

theorem repeated_reads {x : Reader UInt8 Unit} {items : List (List UInt8)} (h : ∀ item ∈ items, x.Reads item ()) :
    (repeated x items.length).Reads items.flatten () := by
  induction items with
  | nil => exact Reader.reads_pure ()
  | cons item items ih =>
    exact (h item List.mem_cons_self).bind (ih fun item hi => h item (List.mem_cons_of_mem _ hi))

theorem fieldBegin_reads (type : TType) (id : Int16) :
    readFieldBegin.Reads (writeFieldBegin type id) (some (type,id)) := by
  have hcode : [TType.code type] ≠ [T_STOP] := by cases type <;> decide
  have htype : readType [TType.code type] = pure type := by cases type <;> rfl
  refine (take_reads (rfl : [TType.code type].length = 1)).bind ?_
  rw [if_neg hcode,htype,Reader.pure_bind]
  exact (i16_reads id).last rfl

theorem fieldStop_reads : readFieldBegin.Reads [T_STOP] none :=
  (take_reads (rfl : [T_STOP].length = 1)).last rfl

theorem fields_reads {skip : TType → Reader UInt8 Unit} {fields : List (Field UInt8)}
    (h : ∀ f ∈ fields, (skip f.type).Reads f.value ()) :
    (readFieldBegin.loop (fun header (_ : Unit) => skip header.1) ()).Reads
      (fields.flatMap (fun f => writeFieldBegin f.type f.id ++ f.value) ++ [T_STOP]) () := by
  induction fields with
  | nil => exact Header.loop_stop fieldStop_reads _ _
  | cons f fields ih =>
    have hlater := ih fun f hf => h f (List.mem_cons_of_mem _ hf)
    rw [List.flatMap_cons,List.append_assoc,List.append_assoc]
    exact Header.loop_item (fieldBegin_reads f.type f.id) (h f List.mem_cons_self) hlater

theorem items_reads {skip : TType → Reader UInt8 Unit} {type : TType} {items : List (List UInt8)}
    (hl : items.length < 2^31) (h : ∀ item ∈ items, (skip type).Reads item ()) :
    (skipItems skip).Reads ([TType.code type] ++ (encode 4 items.length ++ items.flatten)) () :=
  type_reads type ((size_reads hl).bind (repeated_reads h))

theorem entries_reads {skip : TType → Reader UInt8 Unit} {key value : TType}
    {entries : List (List UInt8 × List UInt8)} (hl : entries.length < 2^31)
    (hk : ∀ e ∈ entries, (skip key).Reads e.1 ()) (hv : ∀ e ∈ entries, (skip value).Reads e.2 ()) :
    (skipEntries skip).Reads ([TType.code key] ++ ([TType.code value] ++
      (encode 4 entries.length ++ (entries.map fun e => e.1 ++ e.2).flatten))) () := by
  have hitems : ∀ item ∈ entries.map (fun e => e.1 ++ e.2), (do
      skip key
      skip value : Reader UInt8 Unit).Reads item () := by
    intro item hi
    obtain ⟨e,he,rfl⟩ := List.mem_map.mp hi
    exact (hk e he).bind (hv e he)
  have hrepeated := repeated_reads hitems
  rw [List.length_map] at hrepeated
  exact type_reads key (type_reads value ((size_reads hl).bind hrepeated))

theorem skipTo_reads {depth : ℕ} {type : TType} {bytes : List UInt8} (h : EncodesTo depth type bytes) :
    (skipTo depth type).Reads bytes () := by
  induction h with
  | bool h | byte h | i16 h | i32 h | i64 h | double h =>
    rw [skipTo]
    exact skipBytes_reads h
  | string h =>
    rw [skipTo]
    exact (string_reads h).last rfl
  | struct _ ih =>
    rw [skipTo]
    exact fields_reads ih
  | set hl _ ih | list hl _ ih =>
    rw [skipTo]
    exact items_reads hl ih
  | map hl _ _ ihk ihv =>
    rw [skipTo]
    exact entries_reads hl ihk ihv

/-- TApplicationException as a struct with its message and the code of its type. -/
def exceptionCode (type : ExceptionType) : Int32 := Int32.ofNat (exceptionTypes.idxOf type)

def writeException (x : TApplicationException) : List UInt8 :=
  writeFieldBegin .string 1 ++ (writeString x.message ++ (writeFieldBegin .i32 2 ++
    (writeI32 (exceptionCode x.type) ++ [T_STOP])))

def readExceptionField (depth : ℕ) (header : TType × Int16) (this : TApplicationException) :
    Reader UInt8 TApplicationException :=
  if header = (.string,1) then do
    let message ← readString
    pure { this with message := message }
  else if header = (.i32,2) then do
    let code ← readI32
    let type ← lift (exceptionTypes.find? fun t => exceptionCode t = code)
    pure { this with type := type }
  else do
    skipTo depth header.1
    pure this

def readException (depth : ℕ) : Reader UInt8 TApplicationException :=
  readFieldBegin.loop (readExceptionField depth) ⟨.unknown,[]⟩

theorem exception_reads (depth : ℕ) {x : TApplicationException} (h : Short x.message) :
    (readException depth).Reads (writeException x) x := by
  obtain ⟨type,message⟩ := x
  have htype : lift (exceptionTypes.find? fun t => exceptionCode t = exceptionCode type) = pure type := by
    cases type <;> rfl
  refine Header.loop_item (fieldBegin_reads .string 1) ((string_reads h).last rfl) ?_
  refine Header.loop_item (fieldBegin_reads .i32 2) ?_ (Header.loop_stop fieldStop_reads _ _)
  refine (i32_reads (exceptionCode type)).last ?_
  rw [htype]
  rfl

theorem message_reads {name : Bytes} (type : TMessageType) (seqid : Int32) (h : Short name) :
    readMessageBegin.Reads (writeMessageBegin name type seqid) (name,type,seqid) := by
  have hbound : VERSION_1 + messageCode type < 256^4 := by cases type <;> decide
  have hnegative : ¬ VERSION_1 + messageCode type < 2^31 := by cases type <;> decide
  have hversion : (VERSION_1 + messageCode type) / 2^16 = VERSION_1 / 2^16 := by cases type <;> decide
  have htype : lift (messageTypes.find? fun t => messageCode t = (VERSION_1 + messageCode type) % 256) =
      pure type := by cases type <;> rfl
  refine (number_reads hbound).bind ?_
  rw [if_neg hnegative,if_pos hversion,htype,Reader.pure_bind]
  exact (string_reads h).bind ((i32_reads seqid).last rfl)

end MyCpp.PersonService.Binary

namespace MyCpp.PersonService
open StreamReader

/-- Two of the 64 levels that a value may be nested are those of the generated structs. -/
def binaryProtocol : Protocol UInt8 where
  Encodes := Binary.EncodesTo 62
  writeMessageBegin := Binary.writeMessageBegin
  writeMessageEnd := []
  writeStructBegin _ := []
  writeStructEnd := []
  writeFieldBegin _ := Binary.writeFieldBegin
  writeFieldEnd := []
  writeFieldStop := [Binary.T_STOP]
  writeI32 := Binary.writeI32
  writeString := Binary.writeString
  writeException := Binary.writeException
  readMessageBegin := Binary.readMessageBegin
  readMessageEnd := pure ()
  readStructBegin := pure ()
  readStructEnd := pure ()
  readFieldBegin := Binary.readFieldBegin
  readFieldEnd := pure ()
  readI32 := Binary.readI32
  readString := Binary.readString
  readException := Binary.readException 62
  skip := Binary.skipTo 62
  messageBegin_reads _ := Binary.message_reads
  messageBegin_consumes := ((BigEndian.take_consumes (by decide)).bind _).bind _
  messageEnd_reads := Reader.reads_pure ()
  structBegin_reads _ := Reader.reads_pure ()
  structEnd_reads := Reader.reads_pure ()
  fieldBegin_reads _ := Binary.fieldBegin_reads
  fieldStop_reads := Binary.fieldStop_reads
  fieldEnd_reads := Reader.reads_pure ()
  i32_reads := Binary.i32_reads
  string_reads _ := Binary.string_reads
  exception_reads _ := Binary.exception_reads 62
  skip_reads _ _ := Binary.skipTo_reads

end MyCpp.PersonService
