import MyCpp.Library.TransitionSystem
import MyCpp.PersonService.PersonRpc

/-! PersonServiceConcurrentClient: several threads call through one connection. A thread sends
under a sequence id of its own; whoever holds the read mutex reads the next header and keeps
the reply if the id is his, else leaves the header for the others. The bookkeeping of the
library is taken at its word: ids in use are not given out again, the header that was left is
the one that is found, and waitForWork may return at any time once the mutex is free. -/
namespace MyCpp.PersonService
open StreamReader TransitionSystem
variable {W H : Type}

abbrev MessageHeader := Bytes × TMessageType × Int32

/-- A call that a thread has sent. Its place among all calls is not read by the code. -/
structure Waiting where
  place : Nat
  seqid : Int32
  call : Call

/-- The read mutex: free, held at the head of the loop, or held with the header of a message. -/
inductive ReaderPc where
  | free
  | locked (thread : Nat)
  | header (thread : Nat) (h : MessageHeader)

/-- A call that has returned or thrown in a thread. -/
structure Returned where
  thread : Nat
  place : Nat
  outcome : Outcome
  deriving DecidableEq

/-- The threads with what they wait for, the connection, and the header that was left. `broken`
is set when a thread leaves without commit; the last two fields record history. -/
structure ConcurrentClient (W H : Type) where
  threads : List (Option Waiting)
  connection : Connection W H
  pending : Option MessageHeader := none
  reader : ReaderPc := .free
  broken : Bool := false
  sent : List (Nat × Call) := []
  results : List Returned := []

/-- Every choice of the scheduler and of generateSeqId is part of the action. -/
inductive ClientAction where
  | send (thread : Nat) (c : Call) (seqid : Int32)
  | serve
  | lock (thread : Nat)
  | next
  | finish

section Recv
variable (P : Protocol W)

/-- recv_ping and recv_getPerson of the concurrent client, once the header has the right id.
Nothing is returned where they leave without commit. -/
def recvOwn (c : Call) (fname : Bytes) (mtype : TMessageType) : Reader W (Option Outcome) :=
  if mtype = .exception then do
    let x ← P.readException
    P.readMessageEnd
    pure (some (.threw x))
  else do
    if mtype ≠ .reply then
      P.skip .struct
      P.readMessageEnd
    if fname ≠ c.name then
      P.skip .struct
      P.readMessageEnd
      pure none
    else match c with
      | .ping => do
        pingRead P
        P.readMessageEnd
        pure (some .returned)
      | .getPerson _return _ => do
        let result ← ({ success := _return } : GetPersonResult).read P
        P.readMessageEnd
        pure (if result.issetSuccess then some (.person result.success) else none)

end Recv

namespace ConcurrentClient
variable (P : Protocol W) (iface : PersonServiceIf H)

/-- No call under this id is waited for. -/
def Unused (s : ConcurrentClient W H) (seqid : Int32) : Prop :=
  ∀ e, some e ∈ s.threads → Waiting.seqid e ≠ seqid

instance (s : ConcurrentClient W H) (seqid : Int32) : Decidable (s.Unused seqid) :=
  decidable_of_iff (∀ x ∈ s.threads, ∀ e ∈ x, Waiting.seqid e ≠ seqid)
    ⟨fun h e he => h _ he e rfl,fun h _ hx e he => h e (he ▸ hx)⟩

/-- send_ping and send_getPerson write a whole message under the write mutex. -/
def send (s : ConcurrentClient W H) (thread : Nat) (c : Call) (seqid : Int32) : ConcurrentClient W H :=
  { s with
    threads := s.threads.set thread (some ⟨s.sent.length,seqid,c⟩)
    connection.toServer := s.connection.toServer ++ c.send P seqid
    sent := s.sent ++ [(thread,c)] }

/-- The server processes a message. -/
def serve (s : ConcurrentClient W H) : Option (ConcurrentClient W H) :=
  if s.connection.toServer.isEmpty then none
  else ((process P iface s.connection.handler).run s.connection.toServer).map fun r =>
    { s with connection := ⟨r.2,s.connection.toClient ++ r.1.1,r.1.2⟩ }

/-- getPending, or else readMessageBegin once something has arrived. -/
def next (s : ConcurrentClient W H) (thread : Nat) : Option (ConcurrentClient W H) :=
  match s.pending with
  | some h => some { s with pending := none, reader := .header thread h }
  | none =>
    if s.connection.toClient.isEmpty then none
    else (P.readMessageBegin.run s.connection.toClient).map fun r =>
      { s with connection.toClient := r.2, reader := .header thread r.1 }

/-- The rest of the loop: a reply of his own, or updatePending and waitForWork. -/
def finish (s : ConcurrentClient W H) (thread : Nat) (e : Waiting) (h : MessageHeader) :
    Option (ConcurrentClient W H) :=
  if e.seqid = h.2.2 then
    ((recvOwn P e.call h.1 h.2.1).run s.connection.toClient).map fun r =>
      { s with
        threads := s.threads.set thread none
        connection.toClient := r.2
        reader := .free
        broken := s.broken || r.1.isNone
        results := s.results ++ (r.1.map fun o => (⟨thread,e.place,o⟩ : Returned)).toList }
  else some { s with pending := some h, reader := .free }

def step (s : ConcurrentClient W H) : ClientAction → Option (ConcurrentClient W H)
  | .send thread c seqid => match s.threads[thread]? with
    | some none => if s.Unused seqid then some (s.send P thread c seqid) else none
    | _ => none
  | .serve => s.serve P iface
  | .lock thread => match s.reader, s.threads[thread]? with
    | .free, some (some _) => some { s with reader := .locked thread }
    | _, _ => none
  | .next => match s.reader with
    | .locked thread => s.next P thread
    | _ => none
  | .finish => match s.reader with
    | .header thread h => match s.threads[thread]? with
      | some (some e) => s.finish P thread e h
      | _ => none
    | _ => none

end ConcurrentClient

/-- So many threads that have not called yet, and the implementation in its first state. -/
def concurrentSystem (P : Protocol W) (iface : PersonServiceIf H) (threads : Nat) (h : H) :
    System (ConcurrentClient W H) ClientAction where
  init s := s = { threads := List.replicate threads none, connection := { handler := h } }
  step := ConcurrentClient.step P iface

end MyCpp.PersonService
