import MyCpp.Broadcast.BroadcastRuns

/-! The results on the broadcast service: the globals of the client are not raced for, every client
comes to its end, and what it and the server have logged then. -/
namespace MyCpp.Broadcast
open TransitionSystem

/-- All that is kept of a run. -/
structure Tracked (c : Setup) (s : Service) (t : Trail) : Prop where
  flow : Flow c s t
  globals : Globals c s
  outputs : Outputs c s t
  ends : Ends s

theorem reachable_tracked {c : Setup} {s : Service} (h : (system c).Reachable s) : ∃ t, Tracked c s t := by
  refine System.invariant (P := fun s => ∃ t, Tracked c s t) ?_ ?_ h
  · rintro s rfl
    refine ⟨{},⟨rfl,rfl,nofun,rfl,fun _ => ⟨rfl,rfl⟩⟩,?_,⟨rfl,rfl,rfl,rfl⟩,?_⟩
    · exact ⟨fun h => absurd rfl h,nofun,nofun⟩
    · exact ⟨by simp,nofun,nofun,nofun,fun _ => rfl⟩
  · rintro s a u _ ⟨t,ht⟩ ha
    have he := Service.step_effect a ha
    obtain ⟨t',hflow,houtputs⟩ := ht.flow.effect ht.outputs ht.globals he
    exact ⟨t',hflow,ht.globals.effect ht.flow he,houtputs,ht.ends.effect he⟩

/-- The globals of simple_client.cxx that both threads use. -/
inductive Global where
  | pid_str
  | log_message

/-- The globals that the next step of a thread uses, and whether it writes them. -/
def WriterPc.accesses : WriterPc → List (Global × Bool)
  | .getpid => [(.pid_str,true)]
  | .message => [(.pid_str,false),(.log_message,true)]
  | .log => [(.log_message,false)]
  | .print => [(.log_message,false)]
  | .loop (_ :: _) => [(.pid_str,false)]
  | .loop [] => []
  | .done => []

def ReaderPc.accesses : ReaderPc → List (Global × Bool)
  | .message _ => [(.pid_str,false),(.log_message,true)]
  | .log _ => [(.log_message,false)]
  | .print _ => [(.pid_str,false)]
  | _ => []

theorem ReaderPc.content_of_accesses {pc : ReaderPc} {x : Global × Bool} (h : x ∈ pc.accesses) :
    pc.content ≠ [] := by
  cases pc with
  | message content => exact List.cons_ne_nil _ _
  | log content => exact List.cons_ne_nil _ _
  | print content => exact List.cons_ne_nil _ _
  | _ => cases h

theorem WriterPc.remaining_of_accesses (c : Setup) {pc : WriterPc} {x : Global × Bool} (h : x ∈ pc.accesses) :
    pc.remaining c = c.messages ∨ x = (.pid_str,false) := by
  cases pc with
  | loop messages =>
    cases messages with
    | nil => cases h
    | cons message messages => exact .inr (List.mem_singleton.mp h)
  | done => cases h
  | _ => exact .inl rfl

theorem ReaderPc.reads_pid {pc : ReaderPc} {b : Bool} (h : (Global.pid_str,b) ∈ pc.accesses) : b = false := by
  cases pc <;> simp_all [ReaderPc.accesses]

/-- The threads of the client are not both about to use a global that one of them writes. -/
def Service.RaceFree (s : Service) : Prop :=
  ∀ x a b, (x,a) ∈ s.writer.accesses → (x,b) ∈ s.reader.accesses → a = false ∧ b = false

/-- The globals of the client have no lock, and need none: whatever the two threads, the server and
the stream do, they are not raced for, and whoever reads the process id reads it. -/
theorem client_globals_race_free (c : Setup) (s : Service) (h : (system c).Reachable s) :
    s.RaceFree ∧ (s.reader.content ≠ [] → s.pid_str = c.pidText) := by
  obtain ⟨t,ht⟩ := reachable_tracked h
  refine ⟨fun x a b hw hr => ?_,ht.flow.pid_set ht.globals⟩
  rcases WriterPc.remaining_of_accesses c hw with hearly | hpid
  · exact absurd (ht.flow.early hearly).2 (ReaderPc.content_of_accesses hr)
  · cases hpid
    exact ⟨rfl,ReaderPc.reads_pid hr⟩

/-- The client of the source with process id 7, and a file of two characters. -/
def smallSetup : Setup := { pid := 7, file := some ['x','y'], error_code := 4, error_message := [] }

/-- The response is there before the writer is done. -/
def quickResponse : List Action := List.replicate 5 .writer ++ List.replicate 5 .handler ++ [.reader]

theorem client_globals_race_free_quick : ∃ s, (system smallSetup).run {} quickResponse = some s ∧
    s.reader.content = [smallSetup.response] ∧ s.writer = .loop [] ∧ s.RaceFree ∧ s.pid_str = ['7'] := by
  have hrun : ((system smallSetup).run {} quickResponse).map (fun s => (s.reader.content,s.writer)) =
      some ([smallSetup.response],.loop []) := by
    decide
  obtain ⟨s,hs,hvalue⟩ := Option.map_eq_some_iff.mp hrun
  rw [Prod.mk.injEq] at hvalue
  obtain ⟨hfree,hpid⟩ := client_globals_race_free smallSetup s (.run (.init rfl) _ hs)
  exact ⟨s,hs,hvalue.1,hvalue.2,hfree,hpid (by rw [hvalue.1]; exact List.cons_ne_nil _ _)⟩

/-- To the end: the writer closes its side, the handler returns and the main thread joins. -/
def wholeRun : List Action :=
  quickResponse ++ [.writer,.reader,.handlerReadFails,.reader,.reader,.readFails,.reader,.reader]

section Work

def WriterPc.work (c : Setup) : WriterPc → Nat
  | .getpid => 10 * c.messages.length + 5
  | .message => 10 * c.messages.length + 4
  | .log => 10 * c.messages.length + 3
  | .print => 10 * c.messages.length + 2
  | .loop messages => 10 * messages.length + 1
  | .done => 0

def ReaderPc.work : ReaderPc → Nat
  | .read => 3
  | .message _ => 6
  | .log _ => 5
  | .print _ => 4
  | .join => 2
  | .finish => 1
  | .returned => 0

def HandlerPc.work : HandlerPc → Nat
  | .read => 1
  | .print _ => 9
  | .logReceived _ => 8
  | .logBroadcasted _ => 7
  | .write _ => 6
  | .returned => 0

/-- The steps that are left at most. -/
def Service.work (c : Setup) (s : Service) : Nat :=
  s.writer.work c + 9 * s.toServer.length + s.handler.work + 4 * s.toClient.length + s.reader.work +
    if s.broken then 0 else 1

theorem Effect.work_lt {c : Setup} {s u : Service} (he : Effect c s u) : u.work c < s.work c := by
  cases he with
  | getpid hw | sending hw | logSending hw | printSending hw | writesDone hw =>
    simp only [Service.work,hw,WriterPc.work,List.length_nil]
    omega
  | send message messages hw _ | sendLost message messages hw _ =>
    simp only [Service.work,hw,WriterPc.work,List.length_append,List.length_cons,List.length_nil]
    omega
  | receive content rest hr hq =>
    simp only [Service.work,hr,hq,ReaderPc.work,List.length_cons]
    omega
  | received content hr | logReceived content hr | printReceived content hr
  | readFails hr _ | join hr _ | finish hr =>
    simp only [Service.work,hr,ReaderPc.work]
    omega
  | request request rest hh hq =>
    simp only [Service.work,hh,hq,HandlerPc.work,List.length_cons]
    omega
  | printRequest request hh | logRequest request hh | logBroadcast request hh | respond request hh _
  | respondLost request hh _ | handlerReadFails hh _ =>
    simp only [Service.work,hh,HandlerPc.work,List.length_append,List.length_cons,List.length_nil]
    omega
  | breakStream hb =>
    simp only [Service.work,hb,if_true,Bool.false_eq_true,if_false]
    omega

end Work

namespace Service
variable {c : Setup} {s : Service}

theorem exists_writerStep (hw : s.writer ≠ .done) : ∃ t, s.writerStep c = some t := by
  rw [writerStep]
  cases hpc : s.writer with
  | loop messages =>
    cases messages with
    | nil => exact ⟨_,rfl⟩
    | cons message messages => exact ⟨_,rfl⟩
  | done => exact absurd hpc hw
  | _ => exact ⟨_,rfl⟩

theorem exists_handler_step (hd : s.writesDone = true) (hh : s.handler ≠ .returned) :
    ∃ a t, s.step c a = some t := by
  cases hpc : s.handler with
  | read =>
    cases hq : s.toServer with
    | nil => exact ⟨.handlerReadFails,_,if_pos ⟨hpc,.inr ⟨hq,hd⟩⟩⟩
    | cons request rest => exact ⟨.handler,_,by rw [step,handlerStep,hpc,hq]⟩
  | returned => exact absurd hpc hh
  | _ => exact ⟨.handler,_,by rw [step,handlerStep,hpc]⟩

theorem exists_reader_step (hw : s.writer = .done) (hh : s.handler = .returned) (hr : s.reader ≠ .returned) :
    ∃ a t, s.step c a = some t := by
  cases hpc : s.reader with
  | read =>
    cases hq : s.toClient with
    | nil => exact ⟨.readFails,_,if_pos ⟨hpc,.inr ⟨hq,hh⟩⟩⟩
    | cons content rest => exact ⟨.reader,_,by rw [step,readerStep,hpc,hq]⟩
  | join => exact ⟨.reader,_,by rw [step,readerStep,hpc]; exact if_pos hw⟩
  | returned => exact absurd hpc hr
  | _ => exact ⟨.reader,_,by rw [step,readerStep,hpc]⟩

theorem exists_step (h : Ends s) (hr : s.reader ≠ .returned) : ∃ a t, s.step c a = some t := by
  by_cases hw : s.writer = .done
  · by_cases hh : s.handler = .returned
    · exact exists_reader_step hw hh hr
    · exact exists_handler_step (h.writesDone.mpr hw) hh
  · obtain ⟨t,ht⟩ := exists_writerStep (c := c) hw
    exact ⟨.writer,t,ht⟩

end Service

/-- In every complete run Broadcast returns, whether the stream breaks or not. -/
theorem client_returns (c : Setup) (e : (system c).Execution) : ∃ n, (e.state n).reader = .returned := by
  obtain ⟨n,_,hn⟩ := e.eventually (fun s => s.reader = .returned) (Service.work c) (fun s hs hr => by
    obtain ⟨t,ht⟩ := reachable_tracked hs
    exact ⟨Service.exists_step ht.ends hr,fun a u ha => .inr (Service.step_effect a ha).work_lt⟩) 0
  exact ⟨n,hn⟩

end MyCpp.Broadcast
