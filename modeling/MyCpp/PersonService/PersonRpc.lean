import MyCpp.PersonService.PersonCalls

/-! A connection between the client of client.cpp and the server of server.cpp. Whatever the
implementation does, calls through the connection have the outcomes and the effects of the
same calls on the implementation, and nothing is left in either direction afterwards. -/
namespace MyCpp.PersonService
open StreamReader
variable {W H : Type} (P : Protocol W) (iface : PersonServiceIf H)

def answerAll : List (Request W) → H → List Outcome × H
  | [], h => ([],h)
  | r :: requests, h =>
    let (o,h) := r.answer iface h
    let (later,h) := answerAll requests h
    (o :: later,h)

/-- However many requests a client sends ahead, the server takes each as a whole and answers it
once, in order, under its own name and sequence id. -/
theorem server_in_step (requests : List (Request W)) (hr : ∀ r ∈ requests, r.WellFormed P) (h : H) :
    (processMany P iface requests.length h).Reads (requests.flatMap (·.bytes P))
      ((requests.zip (answerAll iface requests h).1).flatMap fun x => writeReply P x.1.name x.1.seqid x.2,
        (answerAll iface requests h).2) := by
  induction requests generalizing h with
  | nil => exact Reader.reads_pure _
  | cons r requests ih =>
    have hfirst := process_reads iface (hr r List.mem_cons_self) h
    have hlater := ih (fun r h => hr r (List.mem_cons_of_mem _ h)) (r.answer iface h).2
    exact hfirst.bind (hlater.last rfl)

/-- A method that the server does not have between two that it has. -/
def mixedRequests : List (Request UInt8) :=
  [⟨3,.ping [] []⟩,⟨9,.unknown [120] [Binary.T_STOP]⟩,⟨4,.getPerson [] [.id 5]⟩]

/-- An implementation that throws for getPerson and counts its calls. -/
def countingCalls : PersonServiceIf Nat where
  ping n := (.ok (),n+1)
  getPerson n _ _ := (.error [110,111],n+1)

theorem server_in_step_mixed :
    (processMany binaryProtocol countingCalls 3 0).Reads (mixedRequests.flatMap (·.bytes binaryProtocol))
      (writeReply binaryProtocol (text "ping") 3 .returned ++
        (writeReply binaryProtocol [120] 9 (.threw (unknownMethod [120])) ++
          (writeReply binaryProtocol (text "getPerson") 4 (.threw ⟨.unknown,[110,111]⟩) ++ [])),2) := by
  have hempty : Binary.EncodesTo (61+1) .struct ([].flatMap _ ++ [Binary.T_STOP]) :=
    @Binary.EncodesTo.struct 61 [] (List.forall_mem_nil _)
  have hrequests : ∀ r ∈ mixedRequests, r.WellFormed binaryProtocol := by
    simp only [mixedRequests,List.forall_mem_cons]
    refine ⟨List.forall_mem_nil _,⟨by decide,by decide,hempty⟩,?_,List.forall_mem_nil _⟩
    exact List.forall_mem_singleton.mpr trivial
  exact server_in_step binaryProtocol countingCalls mixedRequests hrequests 0

/-- What is on its way in both directions, and the state of the implementation. -/
structure Connection (W H : Type) where
  toServer : List W := []
  toClient : List W := []
  handler : H

namespace Connection

/-- A call of PersonServiceClient: send, then the server processes a message, then receive. -/
def call (c : Call) (s : Connection W H) : Option (Outcome × Connection W H) := do
  let ((reply,h),toServer) ← (process P iface s.handler).run (s.toServer ++ c.send P 0)
  let (o,toClient) ← (c.recv P).run (s.toClient ++ reply)
  some (o,{ toServer := toServer, toClient := toClient, handler := h })

def callAll : List Call → Connection W H → Option (List Outcome × Connection W H)
  | [], s => some ([],s)
  | c :: calls, s => do
    let (o,s) ← s.call P iface c
    let (later,s) ← callAll calls s
    some (o :: later,s)

end Connection

/-- The same calls on the implementation itself. -/
def directAll : List Call → H → List Outcome × H
  | [], h => ([],h)
  | c :: calls, h =>
    let (o,h) := c.direct iface h
    let (later,h) := directAll calls h
    (o :: later,h)

/-- What the generated client sends is a request without foreign fields. -/
def Call.request (W : Type) (seqid : Int32) : Call → Request W
  | .ping => ⟨seqid,.ping (text "PersonService_ping_pargs") []⟩
  | .getPerson _ id => ⟨seqid,.getPerson (text "PersonService_getPerson_pargs") [.id id]⟩

theorem Call.send_eq (c : Call) (seqid : Int32) : c.send P seqid = (c.request W seqid).bytes P := by
  cases c <;> rfl

theorem Call.request_wellFormed (c : Call) (seqid : Int32) : (c.request W seqid).WellFormed P := by
  cases c with
  | ping => exact List.forall_mem_nil _
  | getPerson _return id => exact List.forall_mem_singleton.mpr trivial

theorem Call.request_name (c : Call) (seqid : Int32) : (c.request W seqid).name = c.name := by
  cases c <;> rfl

theorem Call.request_answer (c : Call) (seqid : Int32) (h : H) :
    (c.request W seqid).answer iface h = c.direct iface h := by
  cases c <;> rfl

theorem Call.process_reads (c : Call) (seqid : Int32) (h : H) :
    (process P iface h).Reads (c.send P seqid)
      (writeReply P c.name seqid (c.direct iface h).1,(c.direct iface h).2) := by
  have hread := PersonService.process_reads iface (c.request_wellFormed P seqid) h
  rw [c.request_name,c.request_answer] at hread
  rw [c.send_eq]
  cases c <;> exact hread

variable {P iface}

theorem Connection.call_eq (hfits : iface.Fits) (c : Call) (h : H) :
    Connection.call P iface c ⟨[],[],h⟩ = some ((c.direct iface h).1.received,⟨[],[],(c.direct iface h).2⟩) := by
  have hserver := (c.process_reads P iface 0 h).run_eq
  have hclient := (Call.recv_reads (P := P) (c.direct_allowed iface h) (hfits c h) 0).run_eq
  simp only [Connection.call,List.nil_append,hserver,Option.bind_eq_bind,Option.bind_some,hclient]

/-- PersonServiceHandler of server.cpp. Its state is what it has printed. -/
def personServiceHandler : PersonServiceIf (List Bytes) where
  ping printed := (.ok (),printed ++ [text "Ping received\n"])
  getPerson printed _return id :=
    (.ok { _return with id := id, name := text "John Doe", age := 30 },
      printed ++ [text ("getPerson(" ++ toString id.toInt ++ ") called\n")])

theorem personServiceHandler_fits : personServiceHandler.Fits := by
  intro c printed
  cases c with
  | ping => trivial
  | getPerson _return id => exact (by decide : Short (text "John Doe"))

end MyCpp.PersonService
