import MyCpp.PersonService.ConcurrentModel

/-! What holds across any interleaving of the threads of the concurrent client and the server:
every call gets the reply to its own request, as if the calls had been made on the
implementation one at a time in the order in which they were sent. -/
namespace MyCpp.PersonService
open StreamReader TransitionSystem
variable {W H : Type} {P : Protocol W} {iface : PersonServiceIf H}

namespace ConcurrentClient

/-- What one step can do, guards included. -/
inductive Effect (P : Protocol W) (iface : PersonServiceIf H) (s : ConcurrentClient W H) :
    ConcurrentClient W H → Prop where
  | send (thread : Nat) (c : Call) (seqid : Int32) (hidle : s.threads[thread]? = some none)
      (hnew : s.Unused seqid) : Effect P iface s (s.send P thread c seqid)
  | serve (reply rest : List W) (h : H) (hne : s.connection.toServer ≠ [])
      (hrun : (process P iface s.connection.handler).run s.connection.toServer = some ((reply,h),rest)) :
      Effect P iface s { s with connection := ⟨rest,s.connection.toClient ++ reply,h⟩ }
  | lock (thread : Nat) (e : Waiting) (hfree : s.reader = .free) (ht : s.threads[thread]? = some (some e)) :
      Effect P iface s { s with reader := .locked thread }
  | takePending (thread : Nat) (h : MessageHeader) (hr : s.reader = .locked thread) (hp : s.pending = some h) :
      Effect P iface s { s with pending := none, reader := .header thread h }
  | readHeader (thread : Nat) (h : MessageHeader) (rest : List W) (hr : s.reader = .locked thread)
      (hp : s.pending = none) (hne : s.connection.toClient ≠ [])
      (hrun : P.readMessageBegin.run s.connection.toClient = some (h,rest)) :
      Effect P iface s { s with connection.toClient := rest, reader := .header thread h }
  | own (thread : Nat) (e : Waiting) (h : MessageHeader) (o : Option Outcome) (rest : List W)
      (hr : s.reader = .header thread h) (ht : s.threads[thread]? = some (some e)) (hid : e.seqid = h.2.2)
      (hrun : (recvOwn P e.call h.1 h.2.1).run s.connection.toClient = some (o,rest)) :
      Effect P iface s { s with
        threads := s.threads.set thread none
        connection.toClient := rest
        reader := .free
        broken := s.broken || o.isNone
        results := s.results ++ (o.map fun o => (⟨thread,e.place,o⟩ : Returned)).toList }
  | other (thread : Nat) (e : Waiting) (h : MessageHeader) (hr : s.reader = .header thread h)
      (ht : s.threads[thread]? = some (some e)) (hid : e.seqid ≠ h.2.2) :
      Effect P iface s { s with pending := some h, reader := .free }

theorem step_effect {s t : ConcurrentClient W H} (a : ClientAction) (h : s.step P iface a = some t) :
    Effect P iface s t := by
  cases a with
  | send thread c seqid =>
    simp only [step] at h
    split at h
    · rename_i hidle
      rw [Option.ite_none_right_eq_some,Option.some.injEq] at h
      obtain ⟨hnew,rfl⟩ := h
      exact .send thread c seqid hidle hnew
    · cases h
  | serve =>
    simp only [step,ConcurrentClient.serve,Option.ite_none_left_eq_some,Option.map_eq_some_iff] at h
    obtain ⟨hne,⟨⟨reply,h'⟩,rest⟩,hrun,rfl⟩ := h
    exact .serve reply rest h' (fun he => hne (List.isEmpty_iff.mpr he)) hrun
  | lock thread =>
    simp only [step] at h
    split at h
    · rename_i e hfree ht
      cases h
      exact .lock thread e hfree ht
    · cases h
  | next =>
    simp only [step] at h
    split at h
    · rename_i thread hr
      rw [ConcurrentClient.next] at h
      split at h
      · rename_i header hp
        cases h
        exact .takePending thread header hr hp
      · rename_i hp
        rw [Option.ite_none_left_eq_some,Option.map_eq_some_iff] at h
        obtain ⟨hne,⟨header,rest⟩,hrun,rfl⟩ := h
        exact .readHeader thread header rest hr hp (fun he => hne (List.isEmpty_iff.mpr he)) hrun
    · cases h
  | finish =>
    simp only [step] at h
    split at h
    · rename_i thread header hr
      split at h
      · rename_i e ht
        rw [ConcurrentClient.finish] at h
        split at h
        · rename_i hid
          obtain ⟨⟨o,rest⟩,hrun,rfl⟩ := Option.map_eq_some_iff.mp h
          exact .own thread e header o rest hr ht hid hrun
        · rename_i hid
          cases h
          exact .other thread e header hr ht hid
      · cases h
    · cases h

end ConcurrentClient

theorem directAll_cons (c : Call) (calls : List Call) (h : H) :
    directAll iface (c :: calls) h = ((c.direct iface h).1 :: (directAll iface calls (c.direct iface h).2).1,
      (directAll iface calls (c.direct iface h).2).2) :=
  rfl

theorem directAll_append (calls later : List Call) (h : H) :
    directAll iface (calls ++ later) h = ((directAll iface calls h).1 ++
      (directAll iface later (directAll iface calls h).2).1,
      (directAll iface later (directAll iface calls h).2).2) := by
  induction calls generalizing h with
  | nil => rfl
  | cons c calls ih =>
    rw [List.cons_append,directAll_cons,ih,directAll_cons,List.cons_append]

/-- The outcome at a place, and the state after it, from the state before it. -/
theorem directAll_at (iface : PersonServiceIf H) {calls : List Call} {n : Nat} {c : Call}
    (hc : calls[n]? = some c) (h : H) :
    (directAll iface calls h).1[n]? = some (c.direct iface (directAll iface (calls.take n) h).2).1 ∧
      (directAll iface (calls.take (n+1)) h).2 = (c.direct iface (directAll iface (calls.take n) h).2).2 := by
  induction calls generalizing n h with
  | nil => cases hc
  | cons d calls ih =>
    cases n with
    | zero =>
      cases hc
      exact ⟨rfl,rfl⟩
    | succ n => exact ih hc (d.direct iface h).2

theorem recvOwn_reads {c : Call} {o : Outcome} (hc : c.Allows o) (ho : o.Fits) :
    (recvOwn P c c.name o.messageType).Reads (o.write P ++ P.writeMessageEnd) (some o.received) := by
  cases o with
  | threw x => exact (P.exception_reads x ho).bind (P.messageEnd_reads.last rfl)
  | returned =>
    cases c with
    | ping =>
      simp only [recvOwn,Outcome.messageType,reduceCtorEq,ne_eq,not_true_eq_false,if_false]
      exact (ping_reads _ (List.forall_mem_nil _)).bind (P.messageEnd_reads.last rfl)
    | getPerson _return id => exact hc.elim
  | person p =>
    cases c with
    | ping => exact hc.elim
    | getPerson _return id =>
      simp only [recvOwn,Outcome.messageType,reduceCtorEq,ne_eq,not_true_eq_false,if_false]
      exact (getPersonResult_reads ho _).bind (P.messageEnd_reads.last rfl)

theorem Call.name_short (c : Call) : Short c.name := by
  cases c with
  | ping => decide
  | getPerson _return id => exact (by decide : Short (text "getPerson"))

abbrev Served := Waiting × Outcome

def Served.bytes (P : Protocol W) (x : Served) : List W := writeReply P x.1.call.name x.1.seqid x.2

def Served.header (x : Served) : MessageHeader := (x.1.call.name,x.2.messageType,x.1.seqid)

/-- What is left to read, when no header or the header of the first reply has been read. -/
def Arriving (P : Protocol W) (replies : List Served) : Option MessageHeader → List W → Prop
  | none, input => input = replies.flatMap (Served.bytes P)
  | some h, input => ∃ x later, replies = x :: later ∧ h = x.header ∧
      input = x.2.write P ++ P.writeMessageEnd ++ later.flatMap (Served.bytes P)

theorem Arriving.append {replies : List Served} {current : Option MessageHeader} {input : List W}
    (h : Arriving P replies current input) (x : Served) :
    Arriving P (replies ++ [x]) current (input ++ x.bytes P) := by
  cases current with
  | none =>
    change input = _ at h
    change input ++ _ = _
    rw [h,List.flatMap_append,List.flatMap_singleton]
  | some header =>
    obtain ⟨y,later,rfl,hy,rfl⟩ := h
    refine ⟨y,later ++ [x],rfl,hy,?_⟩
    rw [List.flatMap_append,List.flatMap_singleton,List.append_assoc]

theorem Arriving.read {replies : List Served} {input rest : List W} {header : MessageHeader}
    (h : Arriving P replies none input) (hne : input ≠ [])
    (hrun : P.readMessageBegin.run input = some (header,rest)) : Arriving P replies (some header) rest := by
  change input = _ at h
  cases replies with
  | nil => exact absurd h hne
  | cons x later =>
    have hread := P.messageBegin_reads x.1.call.name x.2.messageType x.1.seqid x.1.call.name_short
      (x.2.write P ++ P.writeMessageEnd ++ later.flatMap (Served.bytes P))
    rw [h,List.flatMap_cons,Served.bytes,writeReply,writeMessage,List.append_assoc,hread] at hrun
    cases hrun
    exact ⟨x,later,rfl,rfl,rfl⟩

theorem Arriving.current_nil {current : Option MessageHeader} {input : List W}
    (h : Arriving P [] current input) : current = none := by
  cases current with
  | none => rfl
  | some header =>
    obtain ⟨x,later,hx,_⟩ := h
    cases hx

namespace ConcurrentClient

/-- The header that has been read and whose reply has not. -/
def current (s : ConcurrentClient W H) : Option MessageHeader :=
  match s.reader with
  | .header _ h => some h
  | _ => s.pending

theorem pending_of_current {s : ConcurrentClient W H} (h : s.current = none) : s.pending = none := by
  rw [current] at h
  split at h
  · cases h
  · exact h

def calls (s : ConcurrentClient W H) : List Call := s.sent.map Prod.snd

/-- The calls that are waited for, each by the thread that sent it, under ids of their own. -/
structure Owned (s : ConcurrentClient W H) (waiting : List Waiting) : Prop where
  waited : ∀ (t : Nat) e, s.threads[t]? = some (some e) → e ∈ waiting
  owner : ∀ e ∈ waiting, ∃ t : Nat, s.threads[t]? = some (some e) ∧ s.sent[e.place]? = some (t,e.call)
  distinct : ∀ (t u : Nat) e f, s.threads[t]? = some (some e) → s.threads[u]? = some (some f) →
    Waiting.seqid e = Waiting.seqid f → t = u

/-- What is on its way in both directions: the requests that follow those already served, and
the replies to some of these. -/
structure OnWire (P : Protocol W) (iface : PersonServiceIf H) (h : H) (s : ConcurrentClient W H) (served : Nat)
    (replies : List Served) (requests : List Waiting) : Prop where
  places : requests.map Waiting.place = List.range' served requests.length
  length : served + requests.length = s.sent.length
  toServer : s.connection.toServer = requests.flatMap fun e => e.call.send P e.seqid
  handler : s.connection.handler = (directAll iface (s.calls.take served) h).2
  toClient : Arriving P replies s.current s.connection.toClient
  outcomes : ∀ x ∈ replies, (directAll iface s.calls h).1[x.1.place]? = some x.2

/-- The calls that have ended, and those whose reply is still on its way. -/
structure Settled (iface : PersonServiceIf H) (h : H) (s : ConcurrentClient W H) (served : Nat)
    (replies : List Served) : Prop where
  places : (s.results.map Returned.place ++ replies.map (·.1.place)).Perm (List.range served)
  results : ∀ r ∈ s.results, ∃ c o, s.sent[r.place]? = some (r.thread,c) ∧
    (directAll iface s.calls h).1[r.place]? = some o ∧ r.outcome = o.received
  whole : s.broken = false

/-- Who holds the read mutex waits for a reply, and no header is left while he has one. -/
structure Reading (s : ConcurrentClient W H) : Prop where
  locked : ∀ t, s.reader = .locked t → ∃ e, s.threads[t]? = some (some e)
  header : ∀ t h, s.reader = .header t h → (∃ e, s.threads[t]? = some (some e)) ∧ s.pending = none

structure Tracked (P : Protocol W) (iface : PersonServiceIf H) (h : H) (s : ConcurrentClient W H) (served : Nat)
    (replies : List Served) (requests : List Waiting) : Prop where
  owned : s.Owned (replies.map Prod.fst ++ requests)
  wire : s.OnWire P iface h served replies requests
  settled : s.Settled iface h served replies
  reading : s.Reading

private theorem append_at {α : Type} {xs : List α} {n : Nat} {x : α} (h : xs[n]? = some x) (ys : List α) :
    (xs ++ ys)[n]? = some x := by
  rw [List.getElem?_append_left (List.getElem?_eq_some_iff.mp h).1,h]

variable {h : H} {s : ConcurrentClient W H} {served : Nat} {replies : List Served} {requests : List Waiting}

theorem calls_send (s : ConcurrentClient W H) (thread : Nat) (c : Call) (seqid : Int32) :
    (s.send P thread c seqid).calls = s.calls ++ [c] := by
  rw [calls,send,List.map_append]
  rfl

theorem Owned.send {waiting : List Waiting} (ho : s.Owned waiting) {thread : Nat}
    (hidle : s.threads[thread]? = some none) {seqid : Int32} (hnew : s.Unused seqid) (c : Call) :
    (s.send P thread c seqid).Owned (waiting ++ [⟨s.sent.length,seqid,c⟩]) := by
  have hlt := (List.getElem?_eq_some_iff.mp hidle).1
  have hself : (s.send P thread c seqid).threads[thread]? = some (some ⟨s.sent.length,seqid,c⟩) :=
    List.getElem?_set_self hlt
  have hothers (t : Nat) (ht : t ≠ thread) : (s.send P thread c seqid).threads[t]? = s.threads[t]? :=
    List.getElem?_set_ne ht.symm
  refine ⟨?_,?_,?_⟩
  · intro t e he
    by_cases ht : t = thread
    · rw [ht,hself] at he
      cases he
      exact List.mem_append_right _ (List.mem_singleton_self _)
    · rw [hothers t ht] at he
      exact List.mem_append_left _ (ho.waited t e he)
  · intro e he
    rcases List.mem_append.mp he with he | he
    · obtain ⟨t,ht,hsent⟩ := ho.owner e he
      refine ⟨t,?_,append_at hsent _⟩
      rw [hothers t (by rintro rfl; rw [hidle] at ht; cases ht),ht]
    · cases List.mem_singleton.mp he
      exact ⟨thread,hself,List.getElem?_concat_length⟩
  · intro t u e f he hf hid
    by_cases ht : t = thread
    · by_cases hu : u = thread
      · rw [ht,hu]
      · rw [ht,hself] at he
        rw [hothers u hu] at hf
        cases he
        exact absurd hid.symm (hnew f (List.mem_of_getElem? hf))
    · rw [hothers t ht] at he
      by_cases hu : u = thread
      · rw [hu,hself] at hf
        cases hf
        exact absurd hid (hnew e (List.mem_of_getElem? he))
      · rw [hothers u hu] at hf
        exact ho.distinct t u e f he hf hid

theorem OnWire.send (hw : s.OnWire P iface h served replies requests) (thread : Nat) (c : Call)
    (seqid : Int32) :
    (s.send P thread c seqid).OnWire P iface h served replies (requests ++ [⟨s.sent.length,seqid,c⟩]) := by
  have hserved : served ≤ s.calls.length := by
    rw [calls,List.length_map,← hw.length]
    exact Nat.le_add_right _ _
  refine ⟨?_,?_,?_,?_,hw.toClient,?_⟩
  · rw [List.map_append,hw.places,List.length_append,List.length_singleton,List.range'_concat,Nat.one_mul,
      ← hw.length]
    rfl
  · rw [List.length_append,List.length_singleton,← Nat.add_assoc,hw.length]
    simp [ConcurrentClient.send]
  · rw [List.flatMap_append,List.flatMap_singleton,← hw.toServer]
    rfl
  · rw [calls_send,List.take_append_of_le_length hserved]
    exact hw.handler
  · intro x hx
    rw [calls_send,directAll_append]
    exact append_at (hw.outcomes x hx) _

theorem Settled.send (hs : s.Settled iface h served replies) (thread : Nat) (c : Call) (seqid : Int32) :
    (s.send P thread c seqid).Settled iface h served replies := by
  refine ⟨hs.places,?_,hs.whole⟩
  intro r hr
  obtain ⟨d,o,hsent,ho,he⟩ := hs.results r hr
  refine ⟨d,o,append_at hsent _,?_,he⟩
  rw [calls_send,directAll_append]
  exact append_at ho _

theorem Reading.of_free (hr : s.reader = .free) : s.Reading := by
  refine ⟨fun t ht => ?_,fun t header ht => ?_⟩
  · cases hr.symm.trans ht
  · cases hr.symm.trans ht

theorem Reading.of_locked {thread : Nat} (hr : s.reader = .locked thread)
    (he : ∃ e, s.threads[thread]? = some (some e)) : s.Reading := by
  refine ⟨fun t ht => ?_,fun t header ht => ?_⟩
  · cases hr.symm.trans ht
    exact he
  · cases hr.symm.trans ht

theorem Reading.of_header {thread : Nat} {header : MessageHeader} (hr : s.reader = .header thread header)
    (he : ∃ e, s.threads[thread]? = some (some e)) (hp : s.pending = none) : s.Reading := by
  refine ⟨fun t ht => ?_,fun t header ht => ?_⟩
  · cases hr.symm.trans ht
  · cases hr.symm.trans ht
    exact ⟨he,hp⟩

theorem Reading.send (hr : s.Reading) {thread : Nat} (hidle : s.threads[thread]? = some none) (c : Call)
    (seqid : Int32) : (s.send P thread c seqid).Reading := by
  have hkept {t : Nat} (h : ∃ e, s.threads[t]? = some (some e)) :
      ∃ e, (s.send P thread c seqid).threads[t]? = some (some e) := by
    obtain ⟨e,he⟩ := h
    refine ⟨e,(List.getElem?_set_ne ?_).trans he⟩
    rintro rfl
    rw [hidle] at he
    cases he
  refine ⟨fun t ht => hkept (hr.locked t ht),fun t header ht => ?_⟩
  obtain ⟨he,hp⟩ := hr.header t header ht
  exact ⟨hkept he,hp⟩

theorem Tracked.send (ht : s.Tracked P iface h served replies requests) {thread : Nat}
    (hidle : s.threads[thread]? = some none) {seqid : Int32} (hnew : s.Unused seqid) (c : Call) :
    (s.send P thread c seqid).Tracked P iface h served replies (requests ++ [⟨s.sent.length,seqid,c⟩]) := by
  refine ⟨?_,ht.wire.send thread c seqid,ht.settled.send thread c seqid,ht.reading.send hidle c seqid⟩
  rw [← List.append_assoc]
  exact ht.owned.send hidle hnew c

theorem Tracked.serve (ht : s.Tracked P iface h served replies requests) (hne : s.connection.toServer ≠ [])
    {reply rest : List W} {h' : H}
    (hrun : (process P iface s.connection.handler).run s.connection.toServer = some ((reply,h'),rest)) :
    ∃ e x later, requests = e :: later ∧ ({ s with connection := ⟨rest,s.connection.toClient ++ reply,h'⟩ } :
      ConcurrentClient W H).Tracked P iface h (served+1) (replies ++ [x]) later := by
  obtain ⟨hplaces,hlength,hserver,hhandler,hclient,houtcomes⟩ := ht.wire
  cases requests with
  | nil => exact absurd hserver hne
  | cons e later =>
    have hread := e.call.process_reads P iface e.seqid s.connection.handler
    rw [hserver,List.flatMap_cons,hread] at hrun
    cases hrun
    rw [List.map_cons,List.length_cons,List.range'_succ,List.cons.injEq] at hplaces
    obtain ⟨hplace,hplaces⟩ := hplaces
    have hcall : s.calls[served]? = some e.call := by
      obtain ⟨t,_,hsent⟩ := ht.owned.owner e (List.mem_append_right _ List.mem_cons_self)
      rw [calls,List.getElem?_map,← hplace,hsent]
      rfl
    obtain ⟨hhere,hafter⟩ := directAll_at iface hcall h
    rw [← hhandler] at hhere hafter
    refine ⟨e,(e,(e.call.direct iface s.connection.handler).1),later,rfl,?_,?_,?_,?_⟩
    · refine ⟨?_,?_,ht.owned.distinct⟩
      · intro t f hf
        have hmem := ht.owned.waited t f hf
        simpa [or_assoc] using hmem
      · intro f hf
        refine ht.owned.owner f ?_
        simpa [or_assoc] using hf
    · refine ⟨hplaces,?_,rfl,hafter.symm,hclient.append _,?_⟩
      · rw [List.length_cons] at hlength
        change served + 1 + later.length = s.sent.length
        omega
      · intro x hx
        rcases List.mem_append.mp hx with hx | hx
        · exact houtcomes x hx
        · cases List.mem_singleton.mp hx
          rw [hplace]
          exact hhere
    · refine ⟨?_,ht.settled.results,ht.settled.whole⟩
      rw [List.map_append,← List.append_assoc,List.range_succ]
      exact ht.settled.places.append (.of_eq (congrArg (fun n => [n]) hplace))
    · exact ⟨ht.reading.locked,ht.reading.header⟩

/-- A step of the reader that touches neither the threads nor the calls. -/
theorem Tracked.move (ht : s.Tracked P iface h served replies requests) {t : ConcurrentClient W H}
    (hthreads : t.threads = s.threads) (hserver : t.connection.toServer = s.connection.toServer)
    (hhandler : t.connection.handler = s.connection.handler) (hsent : t.sent = s.sent)
    (hresults : t.results = s.results) (hwhole : t.broken = s.broken)
    (hclient : Arriving P replies t.current t.connection.toClient) (hreading : t.Reading) :
    t.Tracked P iface h served replies requests := by
  have hcalls : t.calls = s.calls := congrArg (List.map Prod.snd) hsent
  refine ⟨⟨?_,?_,?_⟩,⟨ht.wire.places,?_,?_,?_,hclient,?_⟩,⟨?_,?_,?_⟩,hreading⟩
  · rw [hthreads]
    exact ht.owned.waited
  · rw [hthreads,hsent]
    exact ht.owned.owner
  · rw [hthreads]
    exact ht.owned.distinct
  · rw [hsent]
    exact ht.wire.length
  · rw [hserver]
    exact ht.wire.toServer
  · rw [hhandler,hcalls]
    exact ht.wire.handler
  · rw [hcalls]
    exact ht.wire.outcomes
  · rw [hresults]
    exact ht.settled.places
  · rw [hresults,hsent,hcalls]
    exact ht.settled.results
  · rw [hwhole]
    exact ht.settled.whole

theorem Tracked.first_once {f : Waiting} {raw : Outcome} {later : List Served}
    (ht : s.Tracked P iface h served ((f,raw) :: later) requests) : f ∉ later.map Prod.fst ++ requests := by
  have hnodup := ht.settled.places.nodup_iff.mpr List.nodup_range
  have hserved : f.place < served := by
    apply List.mem_range.mp
    apply ht.settled.places.mem_iff.mp
    exact List.mem_append_right _ List.mem_cons_self
  rw [List.mem_append,not_or]
  constructor
  · intro hf
    obtain ⟨x,hx,rfl⟩ := List.mem_map.mp hf
    have hlater := (List.nodup_append.mp hnodup).2.1
    rw [List.map_cons,List.nodup_cons] at hlater
    exact hlater.1 (List.mem_map.mpr ⟨x,hx,rfl⟩)
  · intro hf
    have hplace : f.place ∈ List.range' served requests.length := by
      rw [← ht.wire.places]
      exact List.mem_map_of_mem hf
    have hle := (List.mem_range'_1.mp hplace).1
    omega

theorem Tracked.understood (hfits : iface.Fits) {f : Waiting} {raw : Outcome} {later : List Served}
    (ht : s.Tracked P iface h served ((f,raw) :: later) requests) : f.call.Allows raw ∧ raw.Fits := by
  obtain ⟨t,_,hsent⟩ := ht.owned.owner f List.mem_cons_self
  have hcall : s.calls[f.place]? = some f.call := by
    rw [calls,List.getElem?_map,hsent]
    rfl
  have hraw := (directAll_at iface hcall h).1
  obtain rfl : raw = _ := Option.some.inj ((ht.wire.outcomes (f,raw) List.mem_cons_self).symm.trans hraw)
  exact ⟨f.call.direct_allowed iface _,hfits f.call _⟩

/-- The header of a reply under the id of a thread is that of the reply to his call. -/
theorem Tracked.first_own {thread : Nat} {e : Waiting} {header : MessageHeader}
    (ht : s.Tracked P iface h served replies requests) (hr : s.reader = .header thread header)
    (he : s.threads[thread]? = some (some e)) (hid : e.seqid = header.2.2) :
    ∃ raw later, replies = (e,raw) :: later ∧ header = Served.header (e,raw) ∧
      s.sent[e.place]? = some (thread,e.call) ∧
      s.connection.toClient = raw.write P ++ P.writeMessageEnd ++ later.flatMap (Served.bytes P) := by
  have hclient := ht.wire.toClient
  rw [current,hr] at hclient
  obtain ⟨⟨f,raw⟩,later,rfl,rfl,hinput⟩ := hclient
  obtain ⟨t,hthread,hsent⟩ := ht.owned.owner f List.mem_cons_self
  obtain rfl : thread = t := ht.owned.distinct thread t e f he hthread hid
  obtain rfl : e = f := by
    rw [he] at hthread
    exact Option.some.inj (Option.some.inj hthread)
  exact ⟨raw,later,rfl,rfl,hsent,hinput⟩

/-- A reply under the id of a thread is the reply to his call. -/
theorem Tracked.own (hfits : iface.Fits) (ht : s.Tracked P iface h served replies requests) {thread : Nat}
    {e : Waiting} {header : MessageHeader} (hr : s.reader = .header thread header)
    (he : s.threads[thread]? = some (some e)) (hid : e.seqid = header.2.2) {o : Option Outcome} {rest : List W}
    (hrun : (recvOwn P e.call header.1 header.2.1).run s.connection.toClient = some (o,rest)) :
    ∃ x later, replies = x :: later ∧ ({ s with
      threads := s.threads.set thread none
      connection.toClient := rest
      reader := .free
      broken := s.broken || o.isNone
      results := s.results ++ (o.map fun o => (⟨thread,e.place,o⟩ : Returned)).toList } :
        ConcurrentClient W H).Tracked P iface h served later requests := by
  obtain ⟨hplaces,hlength,hserver,hhandler,_,houtcomes⟩ := ht.wire
  obtain ⟨raw,later,rfl,rfl,hsent,hinput⟩ := ht.first_own hr he hid
  obtain ⟨hallowed,hshort⟩ := ht.understood hfits
  rw [hinput] at hrun
  cases (recvOwn_reads hallowed hshort _).symm.trans hrun
  have hpending := (ht.reading.header thread _ hr).2
  have hfirst := ht.first_once
  have hothers {u : Nat} {g : Waiting} (hg : (s.threads.set thread none)[u]? = some (some g)) :
      u ≠ thread ∧ s.threads[u]? = some (some g) := by
    by_cases hu : u = thread
    · rw [hu,List.getElem?_set_self (List.getElem?_eq_some_iff.mp he).1] at hg
      cases hg
    · rw [List.getElem?_set_ne (Ne.symm hu)] at hg
      exact ⟨hu,hg⟩
  refine ⟨_,later,rfl,⟨?_,?_,?_⟩,⟨hplaces,hlength,hserver,hhandler,?_,?_⟩,⟨?_,?_,?_⟩,.of_free rfl⟩
  · intro u g hg
    obtain ⟨hu,hold⟩ := hothers hg
    rcases List.mem_cons.mp (ht.owned.waited u g hold) with hsame | hmem
    · exact absurd (ht.owned.distinct u thread g e hold he (congrArg Waiting.seqid hsame)) hu
    · exact hmem
  · intro g hg
    obtain ⟨u,hu,hplace⟩ := ht.owned.owner g (List.mem_cons_of_mem _ hg)
    refine ⟨u,(List.getElem?_set_ne ?_).trans hu,hplace⟩
    rintro rfl
    rw [he] at hu
    cases hu
    exact hfirst hg
  · intro u v f g hf hg
    exact ht.owned.distinct u v f g (hothers hf).2 (hothers hg).2
  · rw [current,hpending]
    rfl
  · exact fun x hx => houtcomes x (List.mem_cons_of_mem _ hx)
  · rw [Option.map_some,Option.toList_some,List.map_append,List.append_assoc]
    exact ht.settled.places
  · intro r hmem
    rcases List.mem_append.mp hmem with hmem | hmem
    · exact ht.settled.results r hmem
    · cases List.mem_singleton.mp hmem
      exact ⟨e.call,raw,hsent,houtcomes (e,raw) List.mem_cons_self,rfl⟩
  · rw [Option.isNone_some,Bool.or_false]
    exact ht.settled.whole

theorem Tracked.effect (hfits : iface.Fits) (ht : s.Tracked P iface h served replies requests)
    {t : ConcurrentClient W H} (he : Effect P iface s t) :
    ∃ served replies requests, t.Tracked P iface h served replies requests := by
  cases he with
  | send thread c seqid hidle hnew => exact ⟨_,_,_,ht.send hidle hnew c⟩
  | serve reply rest h' hne hrun =>
    obtain ⟨_,x,later,_,hserved⟩ := ht.serve hne hrun
    exact ⟨_,_,_,hserved⟩
  | lock thread e hfree hthread =>
    have hclient := ht.wire.toClient
    rw [current,hfree] at hclient
    exact ⟨_,_,_,ht.move rfl rfl rfl rfl rfl rfl hclient (.of_locked rfl ⟨e,hthread⟩)⟩
  | takePending thread header hr hp =>
    have hclient := ht.wire.toClient
    rw [current,hr] at hclient
    change Arriving P replies s.pending _ at hclient
    rw [hp] at hclient
    exact ⟨_,_,_,ht.move rfl rfl rfl rfl rfl rfl hclient (.of_header rfl (ht.reading.locked thread hr) rfl)⟩
  | readHeader thread header rest hr hp hne hrun =>
    have hclient := ht.wire.toClient
    rw [current,hr] at hclient
    change Arriving P replies s.pending _ at hclient
    rw [hp] at hclient
    exact ⟨_,_,_,ht.move rfl rfl rfl rfl rfl rfl (hclient.read hne hrun)
      (.of_header rfl (ht.reading.locked thread hr) hp)⟩
  | own thread e header o rest hr hthread hid hrun =>
    obtain ⟨_,later,_,htracked⟩ := ht.own hfits hr hthread hid hrun
    exact ⟨_,_,_,htracked⟩
  | other thread e header hr hthread hid =>
    have hclient := ht.wire.toClient
    rw [current,hr] at hclient
    exact ⟨_,_,_,ht.move rfl rfl rfl rfl rfl rfl hclient (.of_free rfl)⟩

theorem reachable_tracked (hfits : iface.Fits) {threads : Nat} {s : ConcurrentClient W H}
    (hs : (concurrentSystem P iface threads h).Reachable s) :
    ∃ served replies requests, s.Tracked P iface h served replies requests := by
  refine System.invariant (P := fun s => ∃ served replies requests, s.Tracked P iface h served replies requests)
    ?_ ?_ hs
  · rintro s rfl
    refine ⟨0,[],[],⟨?_,nofun,?_⟩,⟨rfl,rfl,rfl,rfl,rfl,nofun⟩,⟨.nil,nofun,rfl⟩,.of_free rfl⟩
    · intro t e he
      cases List.eq_of_mem_replicate (List.mem_of_getElem? he)
    · intro t u e f he
      cases List.eq_of_mem_replicate (List.mem_of_getElem? he)
  · rintro s a t _ ⟨served,replies,requests,ht⟩ hstep
    exact ht.effect hfits (step_effect a hstep)

end ConcurrentClient

/-- Two threads, the second of which reads the header of the reply to the first. -/
def crossedReplies : List ClientAction :=
  [.send 0 .ping 5,.send 1 (.getPerson {} 7) 6,.serve,.lock 1,.next,.finish,.serve,.lock 0,.next,.finish,
   .lock 1,.next,.finish]

end MyCpp.PersonService
