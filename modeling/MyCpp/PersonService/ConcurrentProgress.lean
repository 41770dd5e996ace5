import MyCpp.PersonService.ConcurrentReplies

/-! No call of the concurrent client is ever stuck: from every state that the threads and the
server can reach, the calls that have been sent can all return. -/
namespace MyCpp.PersonService
open StreamReader TransitionSystem
variable {W H : Type} {P : Protocol W} {iface : PersonServiceIf H}

theorem writeMessage_ne_nil {name : Bytes} (hname : Short name) (type : TMessageType) (seqid : Int32)
    (body : List W) : writeMessage P name type seqid body ≠ [] := by
  have hread := (P.messageBegin_reads name type seqid hname).run_eq
  have hlt := P.messageBegin_consumes _ _ _ hread
  intro hnil
  rw [(List.append_eq_nil_iff.mp hnil).1] at hlt
  exact Nat.lt_irrefl _ hlt

theorem Call.send_ne_nil (c : Call) (seqid : Int32) : c.send P seqid ≠ [] := by
  cases c with
  | ping => exact writeMessage_ne_nil (by decide) _ _ _
  | getPerson _return id => exact writeMessage_ne_nil (by decide) _ _ _

namespace ConcurrentClient
variable {h : H} {s : ConcurrentClient W H} {served : Nat} {replies : List Served} {requests : List Waiting}

/-- Steps that lead from one state to another and send nothing. -/
def Leads (P : Protocol W) (iface : PersonServiceIf H) (s t : ConcurrentClient W H) : Prop :=
  t.sent = s.sent ∧ ∃ actions, ∀ threads h, (concurrentSystem P iface threads h).run s actions = some t

theorem Leads.refl (s : ConcurrentClient W H) : Leads P iface s s := ⟨rfl,[],fun _ _ => rfl⟩

theorem Leads.step {t u : ConcurrentClient W H} {a : ClientAction} (ha : s.step P iface a = some t)
    (hsent : t.sent = s.sent) (h : Leads P iface t u) : Leads P iface s u := by
  obtain ⟨hu,actions,hrun⟩ := h
  refine ⟨hu.trans hsent,a :: actions,fun threads h => ?_⟩
  exact (congrArg (Option.bind · _) ha).trans (hrun threads h)

theorem Leads.trans {t u : ConcurrentClient W H} (h : Leads P iface s t) (h' : Leads P iface t u) :
    Leads P iface s u := by
  obtain ⟨hst,actions,hrun⟩ := h
  obtain ⟨htu,later,hlater⟩ := h'
  refine ⟨htu.trans hst,actions ++ later,fun threads h => ?_⟩
  rw [System.run_append,hrun threads h]
  exact hlater threads h

theorem Tracked.serve_enabled {e : Waiting} {later : List Waiting}
    (ht : s.Tracked P iface h served replies (e :: later)) :
    ∃ x t, s.step P iface .serve = some t ∧ t.sent = s.sent ∧
      t.Tracked P iface h (served+1) (replies ++ [x]) later := by
  have hserver := ht.wire.toServer
  have hne : s.connection.toServer ≠ [] := by
    rw [hserver,List.flatMap_cons]
    exact fun hnil => e.call.send_ne_nil e.seqid (List.append_eq_nil_iff.mp hnil).1
  have hread := e.call.process_reads P iface e.seqid s.connection.handler
    (later.flatMap fun e => e.call.send P e.seqid)
  rw [← List.flatMap_cons (f := fun e : Waiting => e.call.send P e.seqid),← hserver] at hread
  obtain ⟨_,x,_,hsame,hserved⟩ := ht.serve hne hread
  cases hsame
  refine ⟨x,_,?_,?_,hserved⟩
  · simp only [step,ConcurrentClient.serve,List.isEmpty_eq_false_iff.mpr hne,hread,Option.map_some]
    rfl
  · rfl

theorem Tracked.finish_own (hfits : iface.Fits) {thread : Nat} {e : Waiting} {header : MessageHeader}
    (ht : s.Tracked P iface h served replies requests) (hr : s.reader = .header thread header)
    (he : s.threads[thread]? = some (some e)) (hid : e.seqid = header.2.2) :
    ∃ t later x, s.step P iface .finish = some t ∧ t.sent = s.sent ∧ t.reader = .free ∧
      replies = x :: later ∧ t.Tracked P iface h served later requests := by
  obtain ⟨raw,later,rfl,rfl,_,hinput⟩ := ht.first_own hr he hid
  obtain ⟨hallowed,hshort⟩ := ht.understood hfits
  have hrun : (recvOwn P e.call (Served.header (e,raw)).1 (Served.header (e,raw)).2.1).run s.connection.toClient =
      some (some raw.received,later.flatMap (Served.bytes P)) := by
    rw [hinput]
    exact recvOwn_reads hallowed hshort _
  obtain ⟨_,_,hsame,hown⟩ := ht.own hfits hr he hid hrun
  cases hsame
  refine ⟨_,later,_,?_,?_,?_,rfl,hown⟩
  · simp only [step,hr,he,ConcurrentClient.finish,if_pos hid,hrun]
    rfl
  · rfl
  · rfl

theorem Tracked.finish_enabled (hfits : iface.Fits) {thread : Nat} {header : MessageHeader}
    (ht : s.Tracked P iface h served replies []) (hr : s.reader = .header thread header) :
    ∃ t later, s.step P iface .finish = some t ∧ t.sent = s.sent ∧ t.reader = .free ∧
      t.Tracked P iface h served later [] ∧ later.length ≤ replies.length := by
  obtain ⟨⟨e,he⟩,_⟩ := ht.reading.header thread header hr
  by_cases hid : e.seqid = header.2.2
  · obtain ⟨t,later,_,hstep,hsent,hfree,rfl,htracked⟩ := ht.finish_own hfits hr he hid
    exact ⟨t,later,hstep,hsent,hfree,htracked,Nat.le_succ _⟩
  · have hclient := ht.wire.toClient
    rw [current,hr] at hclient
    have hother := ht.move (t := { s with pending := some header, reader := .free }) rfl rfl rfl rfl rfl rfl
      hclient (.of_free rfl)
    refine ⟨_,replies,?_,?_,?_,hother,Nat.le_refl _⟩
    · simp only [step,hr,he,ConcurrentClient.finish,if_neg hid]
    · rfl
    · rfl

/-- Who holds the mutex finds a header as long as a reply is on its way. -/
theorem Tracked.next_enabled {thread : Nat} {x : Served} {later : List Served}
    (ht : s.Tracked P iface h served (x :: later) []) (hr : s.reader = .locked thread) :
    ∃ t, s.step P iface .next = some t ∧ t.sent = s.sent ∧ t.threads = s.threads ∧
      t.reader = .header thread x.header ∧ t.Tracked P iface h served (x :: later) [] := by
  have hholder := ht.reading.locked thread hr
  have hclient := ht.wire.toClient
  rw [current,hr] at hclient
  change Arriving P _ s.pending _ at hclient
  cases hp : s.pending with
  | some header =>
    rw [hp] at hclient
    obtain ⟨y,others,hsame,rfl,hinput⟩ := hclient
    cases hsame
    have hmoved := ht.move (t := { s with pending := none, reader := .header thread x.header })
      rfl rfl rfl rfl rfl rfl ⟨x,later,rfl,rfl,hinput⟩ (.of_header rfl hholder rfl)
    refine ⟨_,?_,?_,?_,?_,hmoved⟩
    · simp only [step,hr,ConcurrentClient.next,hp]
    · rfl
    · rfl
    · rfl
  | none =>
    rw [hp] at hclient
    have hread := P.messageBegin_reads x.1.call.name x.2.messageType x.1.seqid x.1.call.name_short
      (x.2.write P ++ P.writeMessageEnd ++ later.flatMap (Served.bytes P))
    have hinput : s.connection.toClient = x.bytes P ++ later.flatMap (Served.bytes P) := hclient
    have hne : s.connection.toClient ≠ [] := by
      rw [hinput]
      exact fun hnil => writeMessage_ne_nil x.1.call.name_short _ _ _ (List.append_eq_nil_iff.mp hnil).1
    rw [Served.bytes,writeReply,writeMessage,List.append_assoc] at hinput
    rw [← hinput] at hread
    have hmoved := ht.move (t := { s with
        connection.toClient := x.2.write P ++ P.writeMessageEnd ++ later.flatMap (Served.bytes P),
        reader := .header thread x.header }) rfl rfl rfl rfl rfl rfl
      ⟨x,later,rfl,rfl,rfl⟩ (.of_header rfl hholder hp)
    refine ⟨_,?_,?_,?_,?_,hmoved⟩
    · simp only [step,hr,ConcurrentClient.next,hp,List.isEmpty_eq_false_iff.mpr hne,hread]
      rfl
    · rfl
    · rfl
    · rfl

theorem Tracked.to_free (hfits : iface.Fits) (ht : s.Tracked P iface h served replies []) (hne : replies ≠ []) :
    ∃ t later, Leads P iface s t ∧ t.reader = .free ∧ t.Tracked P iface h served later [] ∧
      later.length ≤ replies.length := by
  cases hr : s.reader with
  | free => exact ⟨s,replies,.refl s,hr,ht,Nat.le_refl _⟩
  | header thread header =>
    obtain ⟨t,later,hstep,hsent,hfree,htracked,hle⟩ := ht.finish_enabled hfits hr
    exact ⟨t,later,.step hstep hsent (.refl t),hfree,htracked,hle⟩
  | locked thread =>
    obtain ⟨x,rest,rfl⟩ := List.exists_cons_of_ne_nil hne
    obtain ⟨t,hstep,hsent,_,hheader,htracked⟩ := ht.next_enabled hr
    obtain ⟨u,later,hfinish,hkept,hfree,hfinished,hle⟩ := htracked.finish_enabled hfits hheader
    exact ⟨u,later,.step hstep hsent (.step hfinish hkept (.refl u)),hfree,hfinished,hle⟩

/-- While the mutex is free the thread that waits for the first reply can take it. -/
theorem Tracked.take_first (hfits : iface.Fits) {x : Served} {later : List Served}
    (ht : s.Tracked P iface h served (x :: later) []) (hr : s.reader = .free) :
    ∃ t, Leads P iface s t ∧ t.reader = .free ∧ t.Tracked P iface h served later [] := by
  obtain ⟨thread,he,_⟩ := ht.owned.owner x.1 List.mem_cons_self
  have hclient := ht.wire.toClient
  rw [current,hr] at hclient
  have hlock : s.step P iface (.lock thread) = some { s with reader := .locked thread } := by
    simp only [step,hr,he]
  have hlocked := ht.move (t := { s with reader := .locked thread }) rfl rfl rfl rfl rfl rfl hclient
    (.of_locked rfl ⟨x.1,he⟩)
  obtain ⟨t,hnext,hsent,hthreads,hheader,htracked⟩ := hlocked.next_enabled rfl
  obtain ⟨u,_,_,hfinish,hkept,hfree,hsame,hfinished⟩ := htracked.finish_own hfits hheader
    ((congrArg (·[thread]?) hthreads).trans he) rfl
  cases hsame
  exact ⟨u,.step hlock rfl (.step hnext hsent (.step hfinish hkept (.refl u))),hfree,hfinished⟩

theorem Tracked.drain (hfits : iface.Fits) (ht : s.Tracked P iface h served replies []) (hr : s.reader = .free) :
    ∃ t, Leads P iface s t ∧ t.Tracked P iface h served [] [] := by
  induction replies generalizing s with
  | nil => exact ⟨s,.refl s,ht⟩
  | cons x later ih =>
    obtain ⟨t,hlead,hfree,htracked⟩ := ht.take_first hfits hr
    obtain ⟨u,hrest,hdone⟩ := ih htracked hfree
    exact ⟨u,hlead.trans hrest,hdone⟩

theorem Tracked.serve_all (ht : s.Tracked P iface h served replies requests) :
    ∃ t served' replies', Leads P iface s t ∧ t.Tracked P iface h served' replies' [] := by
  induction requests generalizing s served replies with
  | nil => exact ⟨s,served,replies,.refl s,ht⟩
  | cons e later ih =>
    obtain ⟨x,t,hstep,hsent,htracked⟩ := ht.serve_enabled
    obtain ⟨u,served',replies',hrest,hserved⟩ := ih htracked
    exact ⟨u,served',replies',.step hstep hsent hrest,hserved⟩

theorem Tracked.idle (ht : s.Tracked P iface h served [] []) : ∀ x ∈ s.threads, x = none := by
  intro x hx
  cases x with
  | none => rfl
  | some e =>
    obtain ⟨t,ht'⟩ := List.mem_iff_getElem?.mp hx
    cases ht.owned.waited t e ht'

end ConcurrentClient

/-- However far the threads and the server have come, they can go on without a further call so that
every call that has been sent ends, each once. -/
theorem calls_can_finish (P : Protocol W) (iface : PersonServiceIf H) (hfits : iface.Fits) (threads : Nat) (h : H)
    (s : ConcurrentClient W H) (hs : (concurrentSystem P iface threads h).Reachable s) :
    ∃ actions t, (concurrentSystem P iface threads h).run s actions = some t ∧ t.sent = s.sent ∧
      (∀ x ∈ t.threads, x = none) ∧ (t.results.map Returned.place).Perm (List.range s.sent.length) := by
  obtain ⟨served,replies,requests,ht⟩ := ConcurrentClient.reachable_tracked hfits hs
  obtain ⟨t,_,replies,hserve,ht⟩ := ht.serve_all
  have hdrain : ∃ u, ConcurrentClient.Leads P iface t u ∧ ∃ served, u.Tracked P iface h served [] [] := by
    cases replies with
    | nil => exact ⟨t,.refl t,_,ht⟩
    | cons x later =>
      obtain ⟨u,_,hlead,hfree,hu,_⟩ := ht.to_free hfits (List.cons_ne_nil _ _)
      obtain ⟨v,hrest,hv⟩ := hu.drain hfits hfree
      exact ⟨v,hlead.trans hrest,_,hv⟩
  obtain ⟨u,hlead,served,hu⟩ := hdrain
  obtain ⟨hsent,actions,hrun⟩ := hserve.trans hlead
  refine ⟨actions,u,hrun threads h,hsent,hu.idle,?_⟩
  have hplaces := hu.settled.places
  have hlength := hu.wire.length
  rw [List.map_nil,List.append_nil] at hplaces
  rwa [← hsent,← hlength]

theorem calls_can_finish_left_header :
    ∃ s, (concurrentSystem binaryProtocol personServiceHandler 2 []).run
        { threads := [none,none], connection := { handler := [] } } (crossedReplies.take 6) = some s ∧
      s.pending.isSome ∧ ∃ actions t,
        (concurrentSystem binaryProtocol personServiceHandler 2 []).run s actions = some t ∧
        t.sent = s.sent ∧ (∀ x ∈ t.threads, x = none) ∧
        (t.results.map Returned.place).Perm (List.range s.sent.length) := by
  have hrun : ((concurrentSystem binaryProtocol personServiceHandler 2 []).run
      { threads := [none,none], connection := { handler := [] } } (crossedReplies.take 6)).map
        (fun s => s.pending.isSome) = some true := by
    decide +kernel
  obtain ⟨s,hs,hpending⟩ := Option.map_eq_some_iff.mp hrun
  have hreach := System.Reachable.run (.init rfl) _ hs
  exact ⟨s,hs,hpending,
    calls_can_finish binaryProtocol personServiceHandler personServiceHandler_fits 2 [] s hreach⟩

end MyCpp.PersonService
