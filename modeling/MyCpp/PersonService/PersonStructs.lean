import MyCpp.PersonService.BinaryProtocol

/-! The generated structs of example_types.cpp and PersonService.cpp with their read and write.
Every read goes field by field and skips what it does not know, so a struct written by
another version of the interface is still understood. -/
namespace MyCpp.PersonService
open StreamReader
variable {W S : Type} (P : Protocol W)

/-- A case of the switch over the fields: a field of another type is skipped. -/
def Protocol.readCase (ftype expected : TType) (read : Reader W S) (this : S) : Reader W S :=
  if ftype = expected then read
  else do
    P.skip ftype
    pure this

def Protocol.readDefault (ftype : TType) (this : S) : Reader W S := do
  P.skip ftype
  pure this

structure PersonIsset where
  id : Bool := false
  name : Bool := false
  age : Bool := false
  deriving DecidableEq

structure Person where
  id : Int32 := 0
  name : Bytes := []
  age : Int32 := 0
  isset : PersonIsset := {}
  deriving DecidableEq

namespace Person

def readField (this : Person) (header : TType × Int16) : Reader W Person :=
  if header.2 = 1 then P.readCase header.1 .i32 (do
    let id ← P.readI32
    pure { this with id := id, isset.id := true }) this
  else if header.2 = 2 then P.readCase header.1 .string (do
    let name ← P.readString
    pure { this with name := name, isset.name := true }) this
  else if header.2 = 3 then P.readCase header.1 .i32 (do
    let age ← P.readI32
    pure { this with age := age, isset.age := true }) this
  else P.readDefault header.1 this

def read (this : Person) : Reader W Person := P.readStruct (readField P) this

def write (this : Person) : List W :=
  P.writeStruct (text "Person")
    [{ name := text "id", type := .i32, id := 1, value := P.writeI32 this.id },
     { name := text "name", type := .string, id := 2, value := P.writeString this.name },
     { name := text "age", type := .i32, id := 3, value := P.writeI32 this.age }]

end Person

/-- The args and pargs, result and presult of ping, none of which has a field. -/
def pingRead : Reader W Unit := P.readStruct (fun this header => P.readDefault header.1 this) ()

def pingPargsWrite : List W := P.writeStruct (text "PersonService_ping_pargs") []

def pingResultWrite : List W := P.writeStruct (text "PersonService_ping_result") []

structure GetPersonArgs where
  id : Int32 := 0
  issetId : Bool := false
  deriving DecidableEq

namespace GetPersonArgs

def readField (this : GetPersonArgs) (header : TType × Int16) : Reader W GetPersonArgs :=
  if header.2 = 1 then P.readCase header.1 .i32 (do
    let id ← P.readI32
    pure { id := id, issetId := true }) this
  else P.readDefault header.1 this

def read (this : GetPersonArgs) : Reader W GetPersonArgs := P.readStruct (readField P) this

end GetPersonArgs

def getPersonPargsWrite (id : Int32) : List W :=
  P.writeStruct (text "PersonService_getPerson_pargs")
    [{ name := text "id", type := .i32, id := 1, value := P.writeI32 id }]

/-- The result of getPerson. A presult is one whose success is the caller's object. -/
structure GetPersonResult where
  success : Person := {}
  issetSuccess : Bool := false
  deriving DecidableEq

namespace GetPersonResult

def readField (this : GetPersonResult) (header : TType × Int16) : Reader W GetPersonResult :=
  if header.2 = 0 then P.readCase header.1 .struct (do
    let success ← this.success.read P
    pure { success := success, issetSuccess := true }) this
  else P.readDefault header.1 this

def read (this : GetPersonResult) : Reader W GetPersonResult := P.readStruct (readField P) this

def write (this : GetPersonResult) : List W :=
  P.writeStruct (text "PersonService_getPerson_result")
    (if this.issetSuccess then
      [{ name := text "success", type := .struct, id := 0, value := this.success.write P }]
    else [])

end GetPersonResult

variable {P}

theorem Protocol.readDefault_reads {ftype : TType} {value : List W} (h : P.Encodes ftype value) (this : S) :
    (P.readDefault ftype this).Reads value this :=
  (P.skip_reads ftype value h).last rfl

theorem Protocol.readCase_other {ftype expected : TType} (hne : ftype ≠ expected) {value : List W}
    (h : P.Encodes ftype value) (read : Reader W S) (this : S) :
    (P.readCase ftype expected read this).Reads value this := by
  rw [readCase,if_neg hne]
  exact readDefault_reads h this

/-- A field that a struct with these fields does not know, by its id or by its type. -/
structure Field.Foreign (P : Protocol W) (known : List (Int16 × TType)) (f : Field W) : Prop where
  encodes : P.Encodes f.type f.value
  unknown : (f.id,f.type) ∉ known

/-- A field on the wire where a Person is expected. -/
inductive PersonField (W : Type) where
  | id (value : Int32)
  | name (value : Bytes)
  | age (value : Int32)
  | other (field : Field W)

namespace PersonField

def toField (P : Protocol W) : PersonField W → Field W
  | .id value => { name := text "id", type := .i32, id := 1, value := P.writeI32 value }
  | .name value => { name := text "name", type := .string, id := 2, value := P.writeString value }
  | .age value => { name := text "age", type := .i32, id := 3, value := P.writeI32 value }
  | .other field => field

def WellFormed (P : Protocol W) : PersonField W → Prop
  | .name value => Short value
  | .other field => field.Foreign P [(1,.i32),(2,.string),(3,.i32)]
  | _ => True

def idValue : PersonField W → Option Int32
  | .id value => some value
  | _ => none

def nameValue : PersonField W → Option Bytes
  | .name value => some value
  | _ => none

def ageValue : PersonField W → Option Int32
  | .age value => some value
  | _ => none

/-- What one field does to the object. -/
def apply (this : Person) : PersonField W → Person
  | .id value => { this with id := value, isset.id := true }
  | .name value => { this with name := value, isset.name := true }
  | .age value => { this with age := value, isset.age := true }
  | .other _ => this

theorem readField_reads {f : PersonField W} (h : f.WellFormed P) (this : Person) :
    (this.readField P ((f.toField P).type,(f.toField P).id)).Reads (f.toField P).value (apply this f) := by
  cases f with
  | id value => exact (P.i32_reads value).last rfl
  | name value => exact (P.string_reads value h).last rfl
  | age value => exact (P.i32_reads value).last rfl
  | other f =>
    obtain ⟨hvalue,hunknown⟩ := h
    simp only [List.mem_cons,Prod.mk.injEq,List.not_mem_nil,or_false,not_or,not_and] at hunknown
    obtain ⟨hid,hname,hage⟩ := hunknown
    rw [toField,Person.readField]
    by_cases h1 : f.id = 1
    · rw [if_pos h1]
      exact Protocol.readCase_other (hid h1) hvalue _ this
    rw [if_neg h1]
    by_cases h2 : f.id = 2
    · rw [if_pos h2]
      exact Protocol.readCase_other (hname h2) hvalue _ this
    rw [if_neg h2]
    by_cases h3 : f.id = 3
    · rw [if_pos h3]
      exact Protocol.readCase_other (hage h3) hvalue _ this
    rw [if_neg h3]
    exact Protocol.readDefault_reads hvalue this

end PersonField

/-- What reading leaves in an object: the last value sent for each field, and the old value
where none was sent. -/
def Person.updated (this : Person) (fields : List (PersonField W)) : Person where
  id := (fields.filterMap PersonField.idValue).getLastD this.id
  name := (fields.filterMap PersonField.nameValue).getLastD this.name
  age := (fields.filterMap PersonField.ageValue).getLastD this.age
  isset :=
    { id := this.isset.id || fields.any (·.idValue.isSome)
      name := this.isset.name || fields.any (·.nameValue.isSome)
      age := this.isset.age || fields.any (·.ageValue.isSome) }

theorem Person.foldl_apply (fields : List (PersonField W)) (this : Person) :
    fields.foldl PersonField.apply this = this.updated fields := by
  induction fields generalizing this with
  | nil => simp [updated]
  | cons f fields ih =>
    rw [List.foldl_cons,ih]
    cases f <;>
      simp only [updated,PersonField.apply,PersonField.idValue,PersonField.nameValue,PersonField.ageValue,
        List.filterMap_cons,List.any_cons,List.getLastD_cons,Option.isSome_some,Option.isSome_none,
        Bool.true_or,Bool.or_true,Bool.false_or]

/-- A Person is read from any sequence of fields: in any order, repeated, left out, among fields
of any type that the struct does not know. -/
theorem person_read_tolerant (P : Protocol W) (name : Bytes) (this : Person) (fields : List (PersonField W))
    (h : ∀ f ∈ fields, f.WellFormed P) :
    (this.read P).Reads (P.writeStruct name (fields.map (·.toField P))) (this.updated fields) := by
  rw [← Person.foldl_apply]
  exact P.readStruct_reads name (·.toField P) PersonField.apply
    (fun f hf s => PersonField.readField_reads (h f hf) s) this

/-- The fields come in another order, the id twice, and two of them are unknown: a list under a
new id and a string where the age is expected. -/
def newerFields : List (PersonField UInt8) :=
  [.name [65,110,110],.id 7,
   .other { type := .list, id := 9, value := [Binary.TType.code .bool] ++
     (BigEndian.encode 4 [[1],[0]].length ++ [[1],[0]].flatten) },
   .other { type := .string, id := 3, value := Binary.writeString [52] },.id 8]

theorem person_read_tolerant_newer :
    (({ age := 41 } : Person).read binaryProtocol).Reads
      (binaryProtocol.writeStruct [] (newerFields.map (·.toField binaryProtocol)))
      { id := 8, name := [65,110,110], age := 41, isset := ⟨true,true,false⟩ } := by
  have hitems : ∀ item ∈ [[1],[0]], Binary.EncodesTo 61 .bool item := by
    intro item hi
    exact .bool (by revert item; decide)
  have hlist : Binary.EncodesTo (61+1) .list ([Binary.TType.code .bool] ++
      (BigEndian.encode 4 [[1],[0]].length ++ [[1],[0]].flatten)) :=
    @Binary.EncodesTo.list 61 .bool [[1],[0]] (by decide) hitems
  have hstring : Binary.EncodesTo 62 .string (Binary.writeString [52]) := .string (by decide)
  have hname : Short [65,110,110] := by decide
  have hfields : ∀ f ∈ newerFields, f.WellFormed binaryProtocol := by
    simp only [newerFields,List.forall_mem_cons]
    exact ⟨hname,trivial,⟨hlist,by decide⟩,⟨hstring,by decide⟩,trivial,List.forall_mem_nil _⟩
  have hvalue : ({ age := 41 } : Person).updated newerFields =
      { id := 8, name := [65,110,110], age := 41, isset := ⟨true,true,false⟩ } := by decide
  rw [← hvalue]
  exact person_read_tolerant binaryProtocol [] _ newerFields hfields

/-- A Person as it arrives: every field is written, whether it was set or not. -/
def Person.received (p : Person) : Person := { p with isset := ⟨true,true,true⟩ }

/-- Whatever the object held before, it is the written one afterwards. -/
theorem person_reads {p : Person} (h : Short p.name) (this : Person) :
    (this.read P).Reads (p.write P) p.received := by
  have hread := person_read_tolerant P (text "Person") this [.id p.id,.name p.name,.age p.age]
    (by simpa [PersonField.WellFormed] using h)
  have hvalue : this.updated (W := W) [.id p.id,.name p.name,.age p.age] = p.received := by
    rw [← Person.foldl_apply]
    rfl
  rwa [hvalue] at hread

theorem ping_reads (name : Bytes) {fields : List (Field W)} (h : ∀ f ∈ fields, P.Encodes f.type f.value) :
    (pingRead P).Reads (P.writeStruct name fields) () := by
  have hread : (pingRead P).Reads (P.writeStruct name (fields.map id)) (fields.foldl (fun this _ => this) ()) :=
    P.readStruct_reads name id _ (fun f hf s => Protocol.readDefault_reads (h f hf) s) ()
  rwa [List.map_id] at hread

/-- A field on the wire where the arguments of getPerson are expected. -/
inductive ArgsField (W : Type) where
  | id (value : Int32)
  | other (field : Field W)

namespace ArgsField

def toField (P : Protocol W) : ArgsField W → Field W
  | .id value => { name := text "id", type := .i32, id := 1, value := P.writeI32 value }
  | .other field => field

def WellFormed (P : Protocol W) : ArgsField W → Prop
  | .other field => field.Foreign P [(1,.i32)]
  | _ => True

def idValue : ArgsField W → Option Int32
  | .id value => some value
  | .other _ => none

def apply (this : GetPersonArgs) : ArgsField W → GetPersonArgs
  | .id value => { id := value, issetId := true }
  | .other _ => this

theorem readField_reads {f : ArgsField W} (h : f.WellFormed P) (this : GetPersonArgs) :
    (this.readField P ((f.toField P).type,(f.toField P).id)).Reads (f.toField P).value (apply this f) := by
  cases f with
  | id value => exact (P.i32_reads value).last rfl
  | other f =>
    obtain ⟨hvalue,hunknown⟩ := h
    rw [List.mem_singleton,Prod.mk.injEq,not_and] at hunknown
    rw [toField,GetPersonArgs.readField]
    by_cases h1 : f.id = 1
    · rw [if_pos h1]
      exact Protocol.readCase_other (hunknown h1) hvalue _ this
    rw [if_neg h1]
    exact Protocol.readDefault_reads hvalue this

/-- The id that reaches the handler: the last one sent, or 0. -/
def idOf (fields : List (ArgsField W)) : Int32 := (fields.filterMap idValue).getLastD 0

end ArgsField

theorem getPersonArgs_reads (name : Bytes) {fields : List (ArgsField W)} (h : ∀ f ∈ fields, f.WellFormed P) :
    ∃ args : GetPersonArgs, args.id = ArgsField.idOf fields ∧
      (({} : GetPersonArgs).read P).Reads (P.writeStruct name (fields.map (·.toField P))) args := by
  have hread : (({} : GetPersonArgs).read P).Reads (P.writeStruct name (fields.map (·.toField P)))
      (fields.foldl ArgsField.apply {}) :=
    P.readStruct_reads name _ _ (fun f hf s => ArgsField.readField_reads (h f hf) s) {}
  refine ⟨_,?_,hread⟩
  suffices hid : ∀ this : GetPersonArgs, (fields.foldl ArgsField.apply this).id =
      (fields.filterMap ArgsField.idValue).getLastD this.id from hid {}
  clear h hread
  induction fields with
  | nil => exact fun this => rfl
  | cons f fields ih =>
    intro this
    rw [List.foldl_cons,ih]
    cases f with
    | id value => rw [List.filterMap_cons,ArgsField.idValue,List.getLastD_cons]; rfl
    | other f => rfl

theorem getPersonResult_reads {p : Person} (h : Short p.name) (this : GetPersonResult) :
    (this.read P).Reads (({ success := p, issetSuccess := true } : GetPersonResult).write P)
      { success := p.received, issetSuccess := true } := by
  let toField (p : Person) : Field W :=
    { name := text "success", type := .struct, id := 0, value := p.write P }
  have hfield (q : Person) (hq : q ∈ [p]) (s : GetPersonResult) :
      (s.readField P ((toField q).type,(toField q).id)).Reads (toField q).value ⟨q.received,true⟩ := by
    cases List.mem_singleton.mp hq
    exact (person_reads h s.success).last rfl
  exact P.readStruct_reads _ toField (fun _ q => ⟨q.received,true⟩) hfield this

end MyCpp.PersonService
