import MyCpp.PersonService.PersonStructs

/-! The generated client and processor of PersonService.cpp. A call through the wire does what
a call of the implementation would have done, and the server answers every request it is
sent, once and in order, without losing its place in the stream. -/
namespace MyCpp.PersonService
open StreamReader
variable {W H α : Type} (P : Protocol W)

/-- PersonServiceIf with the state of an implementation. A std::exception is its what(). -/
structure PersonServiceIf (H : Type) where
  ping : H → Except Bytes Unit × H
  getPerson : H → Person → Int32 → Except Bytes Person × H

def writeMessage (name : Bytes) (type : TMessageType) (seqid : Int32) (body : List W) : List W :=
  P.writeMessageBegin name type seqid ++ (body ++ P.writeMessageEnd)

section Processor
variable (iface : PersonServiceIf H)

/-- process_ping: the reply that it writes and the state of the implementation after it. -/
def processPing (seqid : Int32) (h : H) : Reader W (List W × H) := do
  pingRead P
  P.readMessageEnd
  match iface.ping h with
  | (.ok (),h) => pure (writeMessage P (text "ping") .reply seqid (pingResultWrite P),h)
  | (.error what,h) =>
    pure (writeMessage P (text "ping") .exception seqid (P.writeException ⟨.unknown,what⟩),h)

/-- process_getPerson. -/
def processGetPerson (seqid : Int32) (h : H) : Reader W (List W × H) := do
  let args ← ({} : GetPersonArgs).read P
  P.readMessageEnd
  match iface.getPerson h {} args.id with
  | (.ok success,h) =>
    pure (writeMessage P (text "getPerson") .reply seqid
      (({ success := success, issetSuccess := true } : GetPersonResult).write P),h)
  | (.error what,h) =>
    pure (writeMessage P (text "getPerson") .exception seqid (P.writeException ⟨.unknown,what⟩),h)

/-- The exception that answers a call of a method that is not in processMap_. -/
def unknownMethod (fname : Bytes) : TApplicationException :=
  ⟨.unknownMethod,text "Invalid method name: '" ++ fname ++ text "'"⟩

/-- dispatchCall, with the two entries of processMap_. -/
def dispatchCall (fname : Bytes) (seqid : Int32) (h : H) : Reader W (List W × H) :=
  if fname = text "ping" then processPing P iface seqid h
  else if fname = text "getPerson" then processGetPerson P iface seqid h
  else do
    P.skip .struct
    P.readMessageEnd
    pure (writeMessage P fname .exception seqid (P.writeException (unknownMethod fname)),h)

/-- The library reads the header of a message and hands calls to dispatchCall. -/
def process (h : H) : Reader W (List W × H) := do
  let (fname,mtype,seqid) ← P.readMessageBegin
  if mtype = .call ∨ mtype = .oneway then dispatchCall P iface fname seqid h else Reader.fail

/-- A server that processes so many messages of a connection. -/
def processMany : Nat → H → Reader W (List W × H)
  | 0, h => pure ([],h)
  | n+1, h => do
    let (reply,h) ← process P iface h
    let (later,h) ← processMany n h
    pure (reply ++ later,h)

end Processor

section Client

def sendPing (seqid : Int32) : List W := writeMessage P (text "ping") .call seqid (pingPargsWrite P)

def sendGetPerson (id seqid : Int32) : List W :=
  writeMessage P (text "getPerson") .call seqid (getPersonPargsWrite P id)

/-- recv_ping and recv_getPerson up to the result they read: an exception is thrown, a message
of another type or name is skipped, and neither ends the function. -/
def recv (name : Bytes) (result : Reader W α) : Reader W (Except TApplicationException α) := do
  let (fname,mtype,_) ← P.readMessageBegin
  if mtype = .exception then
    let x ← P.readException
    P.readMessageEnd
    pure (.error x)
  else
    if mtype ≠ .reply then
      P.skip .struct
      P.readMessageEnd
    if fname ≠ name then
      P.skip .struct
      P.readMessageEnd
    let result ← result
    P.readMessageEnd
    pure (.ok result)

def recvPing : Reader W (Except TApplicationException Unit) := recv P (text "ping") (pingRead P)

def missingResult : TApplicationException := ⟨.missingResult,text "getPerson failed: unknown result"⟩

/-- recv_getPerson, which fills the caller's object or throws. -/
def recvGetPerson (_return : Person) : Reader W (Except TApplicationException Person) := do
  let received ← recv P (text "getPerson") (({ success := _return } : GetPersonResult).read P)
  match received with
  | .error x => pure (.error x)
  | .ok result => pure (if result.issetSuccess then .ok result.success else .error missingResult)

end Client

/-- A call of one of the methods, with the object that the caller of getPerson passes. -/
inductive Call where
  | ping
  | getPerson (_return : Person) (id : Int32)
  deriving DecidableEq

/-- How a call ends: it returns, it fills the object or it throws. -/
inductive Outcome where
  | returned
  | person (p : Person)
  | threw (x : TApplicationException)
  deriving DecidableEq

namespace Outcome

def write : Outcome → List W
  | .returned => pingResultWrite P
  | .person p => ({ success := p, issetSuccess := true } : GetPersonResult).write P
  | .threw x => P.writeException x

def messageType : Outcome → TMessageType
  | .threw _ => .exception
  | _ => .reply

def received : Outcome → Outcome
  | .person p => .person p.received
  | o => o

/-- Its texts can be written. -/
def Fits : Outcome → Prop
  | .returned => True
  | .person p => Short p.name
  | .threw x => Short x.message

end Outcome

def writeReply (name : Bytes) (seqid : Int32) (o : Outcome) : List W :=
  writeMessage P name o.messageType seqid (o.write P)

namespace Call

def name : Call → Bytes
  | .ping => text "ping"
  | .getPerson _ _ => text "getPerson"

def send (c : Call) (seqid : Int32) : List W :=
  match c with
  | .ping => sendPing P seqid
  | .getPerson _ id => sendGetPerson P id seqid

def recv : Call → Reader W Outcome
  | .ping => do
    let received ← recvPing P
    match received with
    | .error x => pure (.threw x)
    | .ok () => pure .returned
  | .getPerson _return _ => do
    let received ← recvGetPerson P _return
    match received with
    | .error x => pure (.threw x)
    | .ok p => pure (.person p)

/-- The same call made on the implementation itself. -/
def direct (iface : PersonServiceIf H) (h : H) : Call → Outcome × H
  | .ping => match iface.ping h with
    | (.ok (),h) => (.returned,h)
    | (.error what,h) => (.threw ⟨.unknown,what⟩,h)
  | .getPerson _ id => match iface.getPerson h {} id with
    | (.ok p,h) => (.person p,h)
    | (.error what,h) => (.threw ⟨.unknown,what⟩,h)

/-- The kind of outcome that a method can have. -/
def Allows : Call → Outcome → Prop
  | _, .threw _ => True
  | .ping, .returned => True
  | .getPerson _ _, .person _ => True
  | _, _ => False

end Call

/-- Every text that the implementation returns or throws can be written. -/
def PersonServiceIf.Fits (iface : PersonServiceIf H) : Prop := ∀ (c : Call) h, (c.direct iface h).1.Fits

theorem Call.direct_allowed (iface : PersonServiceIf H) (h : H) (c : Call) : c.Allows (c.direct iface h).1 := by
  cases c with
  | ping =>
    rw [direct]
    split <;> trivial
  | getPerson _return id =>
    rw [direct]
    split <;> trivial

variable {P}

theorem recv_reply {name : Bytes} {wire : List W} (hname : Short name) (seqid : Int32) {result : Reader W α}
    {a : α} (h : result.Reads wire a) :
    (recv P name result).Reads (writeMessage P name .reply seqid wire) (.ok a) := by
  refine (P.messageBegin_reads name .reply seqid hname).bind ?_
  simp only [reduceCtorEq,ne_eq,not_true_eq_false,if_false]
  exact h.bind (P.messageEnd_reads.last rfl)

theorem recv_exception {fname : Bytes} (hname : Short fname) (seqid : Int32) {x : TApplicationException}
    (hx : Short x.message) (name : Bytes) (result : Reader W α) :
    (recv P name result).Reads (writeMessage P fname .exception seqid (P.writeException x)) (.error x) := by
  refine (P.messageBegin_reads fname .exception seqid hname).bind ?_
  exact (P.exception_reads x hx).bind (P.messageEnd_reads.last rfl)

theorem recvPing_exception (seqid : Int32) {x : TApplicationException} (hx : Short x.message) :
    (recvPing P).Reads (writeMessage P (text "ping") .exception seqid (P.writeException x)) (.error x) :=
  recv_exception (by decide) seqid hx _ _

theorem recvPing_reply (seqid : Int32) :
    (recvPing P).Reads (writeMessage P (text "ping") .reply seqid (pingResultWrite P)) (.ok ()) :=
  recv_reply (by decide) seqid (ping_reads _ (List.forall_mem_nil _))

theorem recvGetPerson_exception (_return : Person) (seqid : Int32) {x : TApplicationException}
    (hx : Short x.message) : (recvGetPerson P _return).Reads
      (writeMessage P (text "getPerson") .exception seqid (P.writeException x)) (.error x) :=
  (recv_exception (by decide) seqid hx (text "getPerson") _).last rfl

theorem recvGetPerson_reply (_return : Person) (seqid : Int32) {p : Person} (hp : Short p.name) :
    (recvGetPerson P _return).Reads (writeMessage P (text "getPerson") .reply seqid
      (({ success := p, issetSuccess := true } : GetPersonResult).write P)) (.ok p.received) :=
  (recv_reply (by decide) seqid (getPersonResult_reads hp _)).last rfl

theorem Call.recv_reads {c : Call} {o : Outcome} (hc : c.Allows o) (ho : o.Fits) (seqid : Int32) :
    (c.recv P).Reads (writeReply P c.name seqid o) o.received := by
  cases c with
  | ping =>
    cases o with
    | returned => exact (recvPing_reply seqid).last rfl
    | person p => exact hc.elim
    | threw x => exact (recvPing_exception seqid ho).last rfl
  | getPerson _return id =>
    cases o with
    | returned => exact hc.elim
    | person p => exact (recvGetPerson_reply _return seqid ho).last rfl
    | threw x => exact (recvGetPerson_exception _return seqid ho).last rfl

/-- A reply under another name is skipped, and the result is read all the same. -/
theorem recv_other {fname name : Bytes} (hname : Short fname) (hother : fname ≠ name) (seqid : Int32)
    {body wire : List W} (hbody : P.Encodes .struct body) {result : Reader W α} {a : α}
    (h : result.Reads wire a) :
    (recv P name result).Reads (writeMessage P fname .reply seqid body ++ (wire ++ P.writeMessageEnd))
      (.ok a) := by
  rw [writeMessage,List.append_assoc,List.append_assoc]
  refine (P.messageBegin_reads fname .reply seqid hname).bind ?_
  simp only [reduceCtorEq,ne_eq,not_true_eq_false,if_false,hother,not_false_eq_true,if_true]
  exact (P.skip_reads .struct body hbody).bind (P.messageEnd_reads.bind (h.bind (P.messageEnd_reads.last rfl)))

/-- recv_getPerson checks neither the name nor the sequence id of a reply: it drops the reply of
another method and takes its result from what follows. -/
theorem mismatched_reply_dropped (P : Protocol W) (_return : Person) {fname : Bytes} (hname : Short fname)
    (hother : fname ≠ text "getPerson") (seqid : Int32) {body : List W} (hbody : P.Encodes .struct body)
    {p : Person} (hp : Short p.name) :
    (recvGetPerson P _return).Reads (writeMessage P fname .reply seqid body ++
      (({ success := p, issetSuccess := true } : GetPersonResult).write P ++ P.writeMessageEnd))
      (.ok p.received) :=
  (recv_other hname hother seqid hbody (getPersonResult_reads hp _)).last rfl

/-- What a server is sent: a call of one of its methods, by a client that may know other fields,
or of a method that it does not have. -/
inductive RequestBody (W : Type) where
  | ping (struct : Bytes) (fields : List (Field W))
  | getPerson (struct : Bytes) (fields : List (ArgsField W))
  | unknown (fname : Bytes) (args : List W)

structure Request (W : Type) where
  seqid : Int32
  body : RequestBody W

namespace Request

def name (r : Request W) : Bytes :=
  match r.body with
  | .ping _ _ => text "ping"
  | .getPerson _ _ => text "getPerson"
  | .unknown fname _ => fname

def args (P : Protocol W) (r : Request W) : List W :=
  match r.body with
  | .ping struct fields => P.writeStruct struct fields
  | .getPerson struct fields => P.writeStruct struct (fields.map (·.toField P))
  | .unknown _ args => args

def bytes (P : Protocol W) (r : Request W) : List W := writeMessage P r.name .call r.seqid (r.args P)

def WellFormed (P : Protocol W) (r : Request W) : Prop :=
  match r.body with
  | .ping _ fields => ∀ f ∈ fields, P.Encodes f.type f.value
  | .getPerson _ fields => ∀ f ∈ fields, f.WellFormed P
  | .unknown fname args => fname ∉ [text "ping",text "getPerson"] ∧ Short fname ∧ P.Encodes .struct args

def call (r : Request W) : Option Call :=
  match r.body with
  | .ping _ _ => some .ping
  | .getPerson _ fields => some (.getPerson {} (ArgsField.idOf fields))
  | .unknown _ _ => none

/-- What is answered, and the state of the implementation after it. -/
def answer (iface : PersonServiceIf H) (r : Request W) (h : H) : Outcome × H :=
  match r.call with
  | some c => c.direct iface h
  | none => (.threw (unknownMethod r.name),h)

end Request

theorem process_reads (iface : PersonServiceIf H) {r : Request W} (hr : r.WellFormed P) (h : H) :
    (process P iface h).Reads (r.bytes P)
      (writeReply P r.name r.seqid (r.answer iface h).1,(r.answer iface h).2) := by
  obtain ⟨seqid,body⟩ := r
  cases body with
  | ping struct fields =>
    refine (P.messageBegin_reads (text "ping") .call seqid (by decide)).bind ?_
    refine (ping_reads struct hr).bind (P.messageEnd_reads.last ?_)
    simp only [Request.answer,Request.call,Call.direct]
    split <;> rfl
  | getPerson struct fields =>
    refine (P.messageBegin_reads (text "getPerson") .call seqid (by decide)).bind ?_
    obtain ⟨args,hid,hargs⟩ := getPersonArgs_reads struct hr
    refine hargs.bind (P.messageEnd_reads.last ?_)
    simp only [Request.answer,Request.call,Call.direct,hid]
    split <;> rfl
  | unknown fname args =>
    obtain ⟨hnew,hshort,hargs⟩ := hr
    rw [List.mem_cons,List.mem_singleton,not_or] at hnew
    refine (P.messageBegin_reads fname .call seqid hshort).bind ?_
    simp only [true_or,if_true,dispatchCall,if_neg hnew.1,if_neg hnew.2]
    exact (P.skip_reads .struct args hargs).bind (P.messageEnd_reads.last rfl)

end MyCpp.PersonService
