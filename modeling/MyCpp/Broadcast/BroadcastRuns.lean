import MyCpp.Broadcast.BroadcastModel

/-! What holds in every run of the broadcast service. Nothing but the stream orders the two threads
of the client: a response comes after its request, and a request after the writer is done with
the globals. -/
namespace MyCpp.Broadcast
open TransitionSystem

/-- What one step can do, guards included. -/
inductive Effect (c : Setup) (s : Service) : Service → Prop where
  | getpid (hw : s.writer = .getpid) : Effect c s { s with pid_str := c.pidText, writer := .message }
  | sending (hw : s.writer = .message) :
      Effect c s { s with log_message := sendingLine s.pid_str, writer := .log }
  | logSending (hw : s.writer = .log) :
      Effect c s { s with clientLog := s.clientLog ++ [s.log_message], writer := .print }
  | printSending (hw : s.writer = .print) :
      Effect c s { s with clientOut := s.clientOut ++ [s.log_message], writer := .loop c.messages }
  | send (message : Text) (messages : List Text) (hw : s.writer = .loop (message :: messages))
      (hb : s.broken = false) :
      Effect c s { s with toServer := s.toServer ++ [message ++ s.pid_str], writer := .loop messages }
  | sendLost (message : Text) (messages : List Text) (hw : s.writer = .loop (message :: messages))
      (hb : s.broken = true) : Effect c s { s with writer := .loop messages }
  | writesDone (hw : s.writer = .loop []) : Effect c s { s with writesDone := true, writer := .done }
  | receive (content : Text) (rest : List Text) (hr : s.reader = .read) (hq : s.toClient = content :: rest) :
      Effect c s { s with toClient := rest, reader := .message content }
  | received (content : Text) (hr : s.reader = .message content) :
      Effect c s { s with log_message := receivedLine s.pid_str content, reader := .log content }
  | logReceived (content : Text) (hr : s.reader = .log content) :
      Effect c s { s with clientLog := s.clientLog ++ [s.log_message], reader := .print content }
  | printReceived (content : Text) (hr : s.reader = .print content) :
      Effect c s { s with clientOut := s.clientOut ++ [receivedOut s.pid_str content], reader := .read }
  | readFails (hr : s.reader = .read) (hend : s.broken = true ∨ s.toClient = [] ∧ s.handler = .returned) :
      Effect c s { s with reader := .join }
  | join (hr : s.reader = .join) (hw : s.writer = .done) : Effect c s { s with reader := .finish }
  | finish (hr : s.reader = .finish) (err : List Text) (herr : s.broken = false → err = s.clientErr) :
      Effect c s { s with clientErr := err, reader := .returned }
  | request (request : Text) (rest : List Text) (hh : s.handler = .read) (hq : s.toServer = request :: rest) :
      Effect c s { s with toServer := rest, handler := .print request }
  | printRequest (request : Text) (hh : s.handler = .print request) :
      Effect c s { s with
        serverOut := s.serverOut ++ ["Received message: ".toList ++ request]
        handler := .logReceived request }
  | logRequest (request : Text) (hh : s.handler = .logReceived request) :
      Effect c s { s with
        serverLog := s.serverLog ++ ["Received data from pid ".toList ++ request]
        handler := .logBroadcasted request }
  | logBroadcast (request : Text) (hh : s.handler = .logBroadcasted request) :
      Effect c s { s with
        serverLog := s.serverLog ++ ["Broadcasted large_data.json".toList]
        handler := .write request }
  | respond (request : Text) (hh : s.handler = .write request) (hb : s.broken = false) :
      Effect c s { s with toClient := s.toClient ++ [c.response], handler := .read }
  | respondLost (request : Text) (hh : s.handler = .write request) (hb : s.broken = true) :
      Effect c s { s with handler := .read }
  | handlerReadFails (hh : s.handler = .read) (hend : s.broken = true ∨ s.toServer = [] ∧ s.writesDone = true) :
      Effect c s { s with handler := .returned }
  | breakStream (hb : s.broken = false) : Effect c s { s with broken := true }

namespace Service
variable {c : Setup} {s t : Service}

private theorem writerStep_effect (h : s.writerStep c = some t) : Effect c s t := by
  rw [writerStep] at h
  split at h
  · rename_i hw
    cases h
    exact .getpid hw
  · rename_i hw
    cases h
    exact .sending hw
  · rename_i hw
    cases h
    exact .logSending hw
  · rename_i hw
    cases h
    exact .printSending hw
  · rename_i message messages hw
    cases h
    cases hb : s.broken with
    | true => simpa only [hb,if_true] using Effect.sendLost message messages hw hb
    | false => simpa only [hb,Bool.false_eq_true,if_false] using Effect.send message messages hw hb
  · rename_i hw
    cases h
    exact .writesDone hw
  · cases h

private theorem readerStep_effect (h : s.readerStep c = some t) : Effect c s t := by
  rw [readerStep] at h
  split at h
  · rename_i hr
    split at h
    · rename_i content rest hq
      cases h
      exact .receive content rest hr hq
    · cases h
  · rename_i content hr
    cases h
    exact .received content hr
  · rename_i content hr
    cases h
    exact .logReceived content hr
  · rename_i content hr
    cases h
    exact .printReceived content hr
  · rename_i hr
    rw [Option.ite_none_right_eq_some,Option.some.injEq] at h
    obtain ⟨hw,rfl⟩ := h
    exact .join hr hw
  · rename_i hr
    cases h
    exact .finish hr _ fun hb => if_neg (by simp [hb])
  · cases h

private theorem handlerStep_effect (h : s.handlerStep c = some t) : Effect c s t := by
  rw [handlerStep] at h
  split at h
  · rename_i hh
    split at h
    · rename_i request rest hq
      cases h
      exact .request request rest hh hq
    · cases h
  · rename_i request hh
    cases h
    exact .printRequest request hh
  · rename_i request hh
    cases h
    exact .logRequest request hh
  · rename_i request hh
    cases h
    exact .logBroadcast request hh
  · rename_i request hh
    cases h
    cases hb : s.broken with
    | true => simpa only [hb,if_true] using Effect.respondLost request hh hb
    | false => simpa only [hb,Bool.false_eq_true,if_false] using Effect.respond request hh hb
  · cases h

theorem step_effect (a : Action) (h : s.step c a = some t) : Effect c s t := by
  cases a with
  | writer => exact writerStep_effect h
  | reader => exact readerStep_effect h
  | readFails =>
    rw [step,Option.ite_none_right_eq_some,Option.some.injEq] at h
    obtain ⟨⟨hr,hend⟩,rfl⟩ := h
    exact .readFails hr hend
  | handler => exact handlerStep_effect h
  | handlerReadFails =>
    rw [step,Option.ite_none_right_eq_some,Option.some.injEq] at h
    obtain ⟨⟨hh,hend⟩,rfl⟩ := h
    exact .handlerReadFails hh hend
  | breakStream =>
    rw [step,Option.ite_none_left_eq_some,Option.some.injEq] at h
    obtain ⟨hb,rfl⟩ := h
    exact .breakStream (Bool.eq_false_iff.mpr hb)

end Service
/-- The messages that the writer has not written yet. -/
def WriterPc.remaining (c : Setup) : WriterPc → List Text
  | .loop messages => messages
  | .done => []
  | _ => c.messages

/-- What the writer has logged and printed. -/
def WriterPc.logged (c : Setup) : WriterPc → List Text
  | .getpid => []
  | .message => []
  | .log => []
  | _ => [sendingLine c.pidText]

def WriterPc.printed (c : Setup) : WriterPc → List Text
  | .loop _ => [sendingLine c.pidText]
  | .done => [sendingLine c.pidText]
  | _ => []

/-- The response that the main thread works on, and the line that it has logged for it. -/
def ReaderPc.content : ReaderPc → List Text
  | .message content => [content]
  | .log content => [content]
  | .print content => [content]
  | _ => []

def ReaderPc.logged (c : Setup) : ReaderPc → List Text
  | .print content => [receivedLine c.pidText content]
  | _ => []

/-- The main thread has left its loop. -/
def ReaderPc.Left : ReaderPc → Prop
  | .join => True
  | .finish => True
  | .returned => True
  | _ => False

/-- The request that the handler works on, and what it has printed and logged for it. -/
def HandlerPc.request : HandlerPc → List Text
  | .print request => [request]
  | .logReceived request => [request]
  | .logBroadcasted request => [request]
  | .write request => [request]
  | _ => []

def requestOut (request : Text) : Text := "Received message: ".toList ++ request

def requestLog (request : Text) : List Text :=
  ["Received data from pid ".toList ++ request,"Broadcasted large_data.json".toList]

def HandlerPc.printed : HandlerPc → List Text
  | .logReceived request => [requestOut request]
  | .logBroadcasted request => [requestOut request]
  | .write request => [requestOut request]
  | _ => []

def HandlerPc.logged : HandlerPc → List Text
  | .logBroadcasted request => ["Received data from pid ".toList ++ request]
  | .write request => requestLog request
  | _ => []

/-- How far a run has come: messages written, requests handled and lost, responses taken and lost. -/
structure Trail where
  written : List Text := []
  handled : List Text := []
  lost : List Text := []
  received : Nat := 0
  dropped : Nat := 0

/-- The messages on their way in both directions. -/
structure Flow (c : Setup) (s : Service) (t : Trail) : Prop where
  messages : c.messages = t.written ++ s.writer.remaining c
  requests : t.written.map (· ++ c.pidText) = t.handled ++ s.handler.request ++ s.toServer ++ t.lost
  responses : ∀ content ∈ s.reader.content ++ s.toClient, content = c.response
  answered : t.received + s.reader.content.length + s.toClient.length + t.dropped = t.handled.length
  whole : s.broken = false → t.lost = [] ∧ t.dropped = 0

/-- The globals of the client, as far as the threads have set them. -/
structure Globals (c : Setup) (s : Service) : Prop where
  pid : s.writer ≠ .getpid → s.pid_str = c.pidText
  sending : s.writer = .log ∨ s.writer = .print → s.log_message = sendingLine c.pidText
  received : ∀ content, s.reader = .log content → s.log_message = receivedLine c.pidText content

/-- What has been logged and printed on both sides. -/
structure Outputs (c : Setup) (s : Service) (t : Trail) : Prop where
  clientLog : s.clientLog = s.writer.logged c ++ List.replicate t.received (receivedLine c.pidText c.response) ++
    s.reader.logged c
  clientOut : s.clientOut = s.writer.printed c ++ List.replicate t.received (receivedOut c.pidText c.response)
  serverLog : s.serverLog = t.handled.flatMap requestLog ++ s.handler.logged
  serverOut : s.serverOut = t.handled.map requestOut ++ s.handler.printed

/-- Who has left his loop left it for a reason. -/
structure Ends (s : Service) : Prop where
  writesDone : s.writesDone = true ↔ s.writer = .done
  handler : s.handler = .returned → s.broken = true ∨ s.toServer = [] ∧ s.writesDone = true
  reader : s.reader.Left → s.broken = true ∨ s.toClient = [] ∧ s.handler = .returned
  joined : s.reader = .finish ∨ s.reader = .returned → s.writer = .done
  clientErr : s.broken = false → s.clientErr = []

section Steps
variable {c : Setup} {s u : Service} {t : Trail}

theorem Flow.early (h : Flow c s t) (hw : s.writer.remaining c = c.messages) :
    t.received = 0 ∧ s.reader.content = [] := by
  have hwritten : t.written = [] := by
    have hlength := congrArg List.length h.messages
    rw [hw,List.length_append] at hlength
    exact List.length_eq_zero_iff.mp (by omega)
  have hhandled : t.handled = [] := by
    have hrequests := h.requests
    rw [hwritten,List.map_nil] at hrequests
    simp only [List.append_assoc] at hrequests
    exact (List.append_eq_nil_iff.mp hrequests.symm).1
  have hanswered := h.answered
  rw [hhandled,List.length_nil] at hanswered
  exact ⟨by omega,List.length_eq_zero_iff.mp (by omega)⟩

theorem ReaderPc.logged_eq_nil {pc : ReaderPc} (h : pc.content = []) : pc.logged c = [] := by
  cases pc with
  | print content => cases h
  | _ => rfl

theorem Flow.pid_set (h : Flow c s t) (hg : Globals c s) (hr : s.reader.content ≠ []) :
    s.pid_str = c.pidText := by
  refine hg.pid fun hw => hr (h.early ?_).2
  rw [hw]
  rfl

theorem Flow.effect (h : Flow c s t) (o : Outputs c s t) (hg : Globals c s) (he : Effect c s u) :
    ∃ t', Flow c u t' ∧ Outputs c u t' := by
  have hmessages := h.messages
  have hrequests := h.requests
  have hanswered := h.answered
  have hresponses := h.responses
  have hclientLog := o.clientLog
  have hclientOut := o.clientOut
  have hserverLog := o.serverLog
  have hserverOut := o.serverOut
  cases he with
  | getpid hw | sending hw =>
    rw [hw] at hmessages hclientLog hclientOut
    exact ⟨t,{ h with messages := hmessages },{ o with clientLog := hclientLog, clientOut := hclientOut }⟩
  | logSending hw =>
    obtain ⟨hnone,hidle⟩ := h.early (by rw [hw]; rfl)
    have hsending := hg.sending (.inl hw)
    rw [hw] at hmessages hclientLog hclientOut
    refine ⟨t,{ h with messages := hmessages },{ o with clientLog := ?_, clientOut := hclientOut }⟩
    rw [hclientLog,hsending,hnone,ReaderPc.logged_eq_nil hidle]
    rfl
  | printSending hw =>
    obtain ⟨hnone,_⟩ := h.early (by rw [hw]; rfl)
    have hsending := hg.sending (.inr hw)
    rw [hw] at hmessages hclientLog hclientOut
    refine ⟨t,{ h with messages := hmessages },{ o with clientLog := hclientLog, clientOut := ?_ }⟩
    rw [hclientOut,hsending,hnone]
    rfl
  | send message messages hw hb =>
    have hpid := hg.pid (by simp [hw])
    have hlost := (h.whole hb).1
    rw [hw] at hmessages hclientLog hclientOut
    refine ⟨{ t with written := t.written ++ [message] },{ h with messages := ?_, requests := ?_ },
      { o with clientLog := hclientLog, clientOut := hclientOut }⟩
    · exact hmessages.trans (List.append_cons ..)
    · rw [hlost,List.append_nil] at hrequests
      rw [List.map_append,hrequests,hlost,List.append_nil,hpid,List.append_assoc _ s.toServer]
      rfl
  | sendLost message messages hw hb =>
    rw [hw] at hmessages hclientLog hclientOut
    refine ⟨{ t with written := t.written ++ [message], lost := t.lost ++ [message ++ c.pidText] },
      { h with messages := ?_, requests := ?_, whole := ?_ },
      { o with clientLog := hclientLog, clientOut := hclientOut }⟩
    · exact hmessages.trans (List.append_cons ..)
    · rw [List.map_append,hrequests,List.append_assoc _ t.lost]
      rfl
    · intro hwhole
      cases hb.symm.trans hwhole
  | writesDone hw =>
    rw [hw] at hmessages hclientLog hclientOut
    exact ⟨t,{ h with messages := hmessages },{ o with clientLog := hclientLog, clientOut := hclientOut }⟩
  | receive content rest hr hq =>
    rw [hr] at hclientLog
    rw [hr,hq] at hanswered hresponses
    refine ⟨t,{ h with responses := hresponses, answered := ?_ },{ o with clientLog := hclientLog }⟩
    simp only [ReaderPc.content,List.length_cons,List.length_nil] at hanswered ⊢
    omega
  | received content hr =>
    rw [hr] at hanswered hresponses hclientLog
    exact ⟨t,{ h with responses := hresponses, answered := hanswered },{ o with clientLog := hclientLog }⟩
  | logReceived content hr =>
    have hreceived := hg.received content hr
    rw [hr] at hanswered hresponses hclientLog
    refine ⟨t,{ h with responses := hresponses, answered := hanswered },{ o with clientLog := ?_ }⟩
    rw [hclientLog,hreceived,List.append_assoc]
    rfl
  | printReceived content hr =>
    have hpid := h.pid_set hg (by simp [hr,ReaderPc.content])
    rw [hr] at hanswered hresponses hclientLog
    obtain rfl := hresponses content List.mem_cons_self
    refine ⟨{ t with received := t.received + 1 },{ h with responses := ?_, answered := ?_ },
      { o with clientLog := ?_, clientOut := ?_ }⟩
    · exact fun x hx => hresponses x (List.mem_cons_of_mem _ hx)
    · simp only [ReaderPc.content,List.length_cons,List.length_nil] at hanswered ⊢
      omega
    · change s.clientLog = s.writer.logged c ++ List.replicate (t.received+1) _ ++ []
      rw [hclientLog,List.append_nil,List.replicate_succ']
      exact List.append_assoc _ _ _
    · rw [hclientOut,hpid,List.replicate_succ',List.append_assoc]
  | readFails hr _ | join hr _ | finish hr =>
    rw [hr] at hanswered hresponses hclientLog
    exact ⟨t,{ h with responses := hresponses, answered := hanswered },{ o with clientLog := hclientLog }⟩
  | request request rest hh hq =>
    rw [hh] at hserverLog hserverOut
    rw [hh,hq] at hrequests
    refine ⟨t,{ h with requests := hrequests.trans ?_ },
      { o with serverLog := hserverLog, serverOut := hserverOut }⟩
    simp [HandlerPc.request]
  | printRequest request hh =>
    rw [hh] at hrequests hserverLog hserverOut
    refine ⟨t,{ h with requests := hrequests },{ o with serverLog := hserverLog, serverOut := ?_ }⟩
    rw [hserverOut,List.append_assoc]
    rfl
  | logRequest request hh =>
    rw [hh] at hrequests hserverLog hserverOut
    refine ⟨t,{ h with requests := hrequests },{ o with serverLog := ?_, serverOut := hserverOut }⟩
    rw [hserverLog,List.append_assoc]
    rfl
  | logBroadcast request hh =>
    rw [hh] at hrequests hserverLog hserverOut
    refine ⟨t,{ h with requests := hrequests },{ o with serverLog := ?_, serverOut := hserverOut }⟩
    rw [hserverLog,List.append_assoc]
    rfl
  | respond request hh hb =>
    rw [hh] at hrequests hserverLog hserverOut
    refine ⟨{ t with handled := t.handled ++ [request] },
      { h with requests := ?_, responses := ?_, answered := ?_ },
      { o with serverLog := ?_, serverOut := ?_ }⟩
    · simpa [HandlerPc.request] using hrequests
    · intro x hx
      rw [← List.append_assoc] at hx
      rcases List.mem_append.mp hx with hx | hx
      · exact hresponses x hx
      · exact List.mem_singleton.mp hx
    · simp only [List.length_append,List.length_singleton]
      omega
    · simpa [HandlerPc.logged] using hserverLog
    · simpa [HandlerPc.printed] using hserverOut
  | respondLost request hh hb =>
    rw [hh] at hrequests hserverLog hserverOut
    refine ⟨{ t with handled := t.handled ++ [request], dropped := t.dropped + 1 },
      { h with requests := ?_, answered := ?_, whole := ?_ },{ o with serverLog := ?_, serverOut := ?_ }⟩
    · simpa [HandlerPc.request] using hrequests
    · simp only [List.length_append,List.length_singleton]
      omega
    · intro hwhole
      cases hb.symm.trans hwhole
    · simpa [HandlerPc.logged] using hserverLog
    · simpa [HandlerPc.printed] using hserverOut
  | handlerReadFails hh _ =>
    rw [hh] at hrequests hserverLog hserverOut
    exact ⟨t,{ h with requests := hrequests },{ o with serverLog := hserverLog, serverOut := hserverOut }⟩
  | breakStream hb => exact ⟨t,{ h with whole := nofun },{ o with }⟩

theorem Globals.effect (hg : Globals c s) (h : Flow c s t) (he : Effect c s u) : Globals c u := by
  have hbusy (content : Text) (hr : s.reader.content = [content])
      (hw : s.writer.remaining c = c.messages) : False := by
    cases hr.symm.trans (h.early hw).2
  cases he with
  | getpid hw => exact ⟨fun _ => rfl,nofun,hg.received⟩
  | sending hw =>
    have hpid := hg.pid (by simp [hw])
    refine ⟨fun _ => hpid,fun _ => congrArg sendingLine hpid,fun content hr => ?_⟩
    refine (hbusy content ?_ (by rw [hw]; rfl)).elim
    rw [show s.reader = .log content from hr]
    rfl
  | logSending hw => exact ⟨fun _ => hg.pid (by simp [hw]),fun _ => hg.sending (.inl hw),hg.received⟩
  | printSending hw => exact ⟨fun _ => hg.pid (by simp [hw]),nofun,hg.received⟩
  | send message messages hw | sendLost message messages hw =>
    exact ⟨fun _ => hg.pid (by simp [hw]),nofun,hg.received⟩
  | writesDone hw => exact ⟨fun _ => hg.pid (by simp [hw]),nofun,hg.received⟩
  | received content hr =>
    have hpid := h.pid_set hg (by simp [hr,ReaderPc.content])
    refine ⟨hg.pid,fun hw => ?_,?_⟩
    · refine (hbusy content (by rw [hr]; rfl) ?_).elim
      rcases hw with hw | hw
      · rw [show s.writer = .log from hw]
        rfl
      · rw [show s.writer = .print from hw]
        rfl
    · rintro _ ⟨⟩
      exact congrArg (receivedLine · content) hpid
  | receive | logReceived | printReceived | readFails | join | finish => exact ⟨hg.pid,hg.sending,nofun⟩
  | _ => exact ⟨hg.pid,hg.sending,hg.received⟩

theorem Ends.effect (h : Ends s) (he : Effect c s u) : Ends u := by
  have hundone (hw : s.writer ≠ .done) : s.writesDone = false := by
    exact Bool.eq_false_iff.mpr fun hd => hw (h.writesDone.mp hd)
  cases he with
  | getpid hw | sending hw | logSending hw | printSending hw | sendLost _ _ hw =>
    refine { h with writesDone := ?_, joined := ?_ }
    · simp [hundone (by simp [hw])]
    · intro hr
      cases hw.symm.trans (h.joined hr)
  | send message messages hw hb =>
    refine { h with writesDone := ?_, handler := ?_, joined := ?_ }
    · simp [hundone (by simp [hw])]
    · intro hh
      refine .inl ((h.handler hh).resolve_right fun hend => ?_)
      cases (hundone (by simp [hw])).symm.trans hend.2
    · intro hr
      cases hw.symm.trans (h.joined hr)
  | writesDone hw =>
    refine { h with writesDone := by simp, handler := fun hh => ?_, joined := fun _ => rfl }
    exact (h.handler hh).imp_right fun hend => ⟨hend.1,rfl⟩
  | receive content rest hr hq | received content hr | logReceived content hr | printReceived content hr =>
    exact { h with reader := nofun, joined := nofun }
  | readFails hr hend => exact { h with reader := fun _ => hend, joined := nofun }
  | join hr hw => exact { h with reader := fun _ => h.reader (by rw [hr]; trivial), joined := fun _ => hw }
  | finish hr err herr =>
    refine { h with reader := fun _ => ?_, joined := fun _ => h.joined (.inl hr), clientErr := fun hb => ?_ }
    · exact h.reader (by rw [hr]; trivial)
    · exact (herr hb).trans (h.clientErr hb)
  | request request rest hh hq | respondLost _ hh _ | printRequest _ hh | logRequest _ hh | logBroadcast _ hh =>
    refine { h with handler := nofun, reader := fun hr => ?_ }
    refine .inl ((h.reader hr).resolve_right fun hend => ?_)
    cases hh.symm.trans hend.2
  | respond request hh hb =>
    refine { h with handler := nofun, reader := fun hr => ?_ }
    refine .inl ((h.reader hr).resolve_right fun hend => ?_)
    cases hh.symm.trans hend.2
  | handlerReadFails hh hend =>
    refine { h with handler := fun _ => hend, reader := fun hr => ?_ }
    exact (h.reader hr).imp_right fun hend => ⟨hend.1,rfl⟩
  | breakStream hb =>
    exact { h with handler := fun _ => .inl rfl, reader := fun _ => .inl rfl, clientErr := nofun }

end Steps
end MyCpp.Broadcast
