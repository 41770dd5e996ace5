import MyCpp.Library.TransitionSystem

/-! The sending loop of client.cpp, once it is connected, with SIGINT at any point. The signal handler
closes the socket and returns, so the loop goes on over a closed socket; no result of sctp_send
is looked at, and what is printed then is the last status that was got. -/
namespace MyCpp.Sctp
open TransitionSystem

def NUMBER_OF_MESSAGES : Nat := 1000

/-- The next statement of main. -/
inductive Place where
  | send
  | getsockopt
  | print
  | sleep
  | close
  | returned
  deriving DecidableEq

/-- `i` counts the rounds that are complete, `sent` the messages handed to an open socket, `failures`
the lines for a getsockopt that failed, and `perrors` those for a close that failed. -/
structure Client where
  i : Nat := 0
  place : Place := .send
  sockOpen : Bool := true
  spinfo_state : Int
  sent : Nat := 0
  failures : Nat := 0
  statuses : List Int := []
  perrors : Nat := 0
  signals : Nat := 0

/-- What getsockopt finds on an open socket is part of the action; nothing stands for a failure. -/
inductive Action where
  | send
  | getsockopt (found : Option Int)
  | print
  | sleep
  | close
  | sigint

namespace Client

/-- close(sock), whoever calls it: it fails on a socket that is closed already. -/
def closeSock (s : Client) : Client :=
  if s.sockOpen then { s with sockOpen := false } else { s with perrors := s.perrors + 1 }

/-- getsockopt with the line for its failure. -/
def peerAddrInfo (s : Client) (found : Option Int) : Client :=
  match if s.sockOpen then found else none with
  | some state => { s with spinfo_state := state }
  | none => { s with failures := s.failures + 1 }

def step (s : Client) : Action → Option Client
  | .send => if s.place = .send then
      some { s with sent := if s.sockOpen then s.sent + 1 else s.sent, place := .getsockopt } else none
  | .getsockopt found => if s.place = .getsockopt then some { s.peerAddrInfo found with place := .print } else none
  | .print => if s.place = .print then
      some { s with statuses := s.statuses ++ [s.spinfo_state], place := .sleep } else none
  | .sleep => if s.place = .sleep then
      some { s with i := s.i + 1, place := if s.i + 1 < NUMBER_OF_MESSAGES then .send else .close } else none
  | .close => if s.place = .close then some { s.closeSock with place := .returned } else none
  | .sigint => if s.place = .returned then none else some { s.closeSock with signals := s.signals + 1 }

end Client

/-- The state of the peer address is whatever the memory holds until getsockopt has set it. -/
def clientSystem (memory : Int) : System Client Action where
  init s := s = { spinfo_state := memory }
  step := Client.step

inductive Effect (s : Client) : Client → Prop where
  | send (hp : s.place = .send) :
      Effect s { s with sent := if s.sockOpen then s.sent + 1 else s.sent, place := .getsockopt }
  | getsockopt (found : Option Int) (hp : s.place = .getsockopt) :
      Effect s { s.peerAddrInfo found with place := .print }
  | print (hp : s.place = .print) :
      Effect s { s with statuses := s.statuses ++ [s.spinfo_state], place := .sleep }
  | again (hp : s.place = .sleep) (hi : s.i + 1 < NUMBER_OF_MESSAGES) :
      Effect s { s with i := s.i + 1, place := .send }
  | last (hp : s.place = .sleep) (hi : ¬ s.i + 1 < NUMBER_OF_MESSAGES) :
      Effect s { s with i := s.i + 1, place := .close }
  | close (hp : s.place = .close) : Effect s { s.closeSock with place := .returned }
  | sigint (hp : s.place ≠ .returned) : Effect s { s.closeSock with signals := s.signals + 1 }

theorem Client.step_effect {s t : Client} (a : Action) (h : s.step a = some t) : Effect s t := by
  cases a with
  | send =>
    rw [step,Option.ite_none_right_eq_some,Option.some.injEq] at h
    obtain ⟨hp,rfl⟩ := h
    exact .send hp
  | getsockopt found =>
    rw [step,Option.ite_none_right_eq_some,Option.some.injEq] at h
    obtain ⟨hp,rfl⟩ := h
    exact .getsockopt found hp
  | print =>
    rw [step,Option.ite_none_right_eq_some,Option.some.injEq] at h
    obtain ⟨hp,rfl⟩ := h
    exact .print hp
  | sleep =>
    rw [step,Option.ite_none_right_eq_some,Option.some.injEq] at h
    obtain ⟨hp,rfl⟩ := h
    by_cases hi : s.i + 1 < NUMBER_OF_MESSAGES
    · rw [if_pos hi]
      exact .again hp hi
    · rw [if_neg hi]
      exact .last hp hi
  | close =>
    rw [step,Option.ite_none_right_eq_some,Option.some.injEq] at h
    obtain ⟨hp,rfl⟩ := h
    exact .close hp
  | sigint =>
    rw [step,Option.ite_none_left_eq_some,Option.some.injEq] at h
    obtain ⟨hp,rfl⟩ := h
    exact .sigint hp

/-- How many statuses have been printed, from the rounds and the place in the loop. -/
def Place.printed : Place → Nat
  | .sleep => 1
  | _ => 0

/-- How many messages the round has got rid of. -/
def Place.sent : Place → Nat
  | .getsockopt => 1
  | .print => 1
  | .sleep => 1
  | _ => 0

structure Counted (s : Client) : Prop where
  statuses : s.statuses.length = s.i + s.place.printed
  rounds : s.i < NUMBER_OF_MESSAGES ∨ s.i = NUMBER_OF_MESSAGES ∧ (s.place = .close ∨ s.place = .returned)
  ended : s.place = .close ∨ s.place = .returned → s.i = NUMBER_OF_MESSAGES
  sockOpen : s.sockOpen = true ↔ s.signals = 0 ∧ s.place ≠ .returned
  perrors : s.perrors = if s.place = .returned then s.signals else s.signals - 1
  sent : s.signals = 0 → s.sent = s.i + s.place.sent

section Fields
variable (s : Client) (found : Option Int)

@[simp] theorem closeSock_sockOpen : s.closeSock.sockOpen = false := by
  cases h : s.sockOpen <;> simp [Client.closeSock,h]

@[simp] theorem closeSock_perrors :
    s.closeSock.perrors = if s.sockOpen then s.perrors else s.perrors + 1 := by
  cases h : s.sockOpen <;> simp [Client.closeSock,h]

theorem closeSock_eq :
    s.closeSock = { s with sockOpen := s.closeSock.sockOpen, perrors := s.closeSock.perrors } := by
  cases h : s.sockOpen <;> simp [Client.closeSock,h]

theorem peerAddrInfo_eq : s.peerAddrInfo found =
    { s with
      spinfo_state := (s.peerAddrInfo found).spinfo_state
      failures := (s.peerAddrInfo found).failures } := by
  rw [Client.peerAddrInfo]
  split <;> rfl

theorem peerAddrInfo_closed {s : Client} (h : s.sockOpen = false) (found : Option Int) :
    s.peerAddrInfo found = { s with failures := s.failures + 1 } := by
  rw [Client.peerAddrInfo,h]
  rfl

end Fields

theorem Counted.effect {s t : Client} (h : Counted s) (he : Effect s t) : Counted t := by
  obtain ⟨hstatuses,hrounds,hended,hopen,hperrors,hsent⟩ := h
  cases he with
  | send hp =>
    rw [hp] at hstatuses hrounds hended hopen hperrors hsent
    refine ⟨hstatuses,by simpa using hrounds,nofun,by simpa using hopen,by simpa using hperrors,fun hs => ?_⟩
    have ho : s.sockOpen = true := hopen.mpr ⟨hs,nofun⟩
    simp only [ho,if_true,Place.sent]
    exact congrArg (· + 1) (hsent hs)
  | getsockopt found hp =>
    rw [hp] at hstatuses hrounds hended hopen hperrors hsent
    rw [peerAddrInfo_eq]
    exact ⟨hstatuses,by simpa using hrounds,nofun,by simpa using hopen,by simpa using hperrors,hsent⟩
  | print hp =>
    rw [hp] at hstatuses hrounds hended hopen hperrors hsent
    refine ⟨?_,by simpa using hrounds,nofun,by simpa using hopen,by simpa using hperrors,hsent⟩
    rw [List.length_append,hstatuses]
    rfl
  | again hp hi =>
    rw [hp] at hstatuses hrounds hended hopen hperrors hsent
    exact ⟨hstatuses,.inl hi,nofun,by simpa using hopen,by simpa using hperrors,hsent⟩
  | last hp hi =>
    rw [hp] at hstatuses hrounds hended hopen hperrors hsent
    have hlt : s.i < NUMBER_OF_MESSAGES := by simpa using hrounds
    have hi : s.i + 1 = NUMBER_OF_MESSAGES := by omega
    exact ⟨hstatuses,.inr ⟨hi,.inl rfl⟩,fun _ => hi,by simpa using hopen,by simpa using hperrors,hsent⟩
  | close hp =>
    rw [hp] at hstatuses hrounds hended hopen hperrors hsent
    have hi := hended (.inl rfl)
    rw [closeSock_eq]
    refine ⟨hstatuses,.inr ⟨hi,.inr rfl⟩,fun _ => hi,by simp,?_,hsent⟩
    simp only [closeSock_perrors,if_true]
    split
    · rename_i ho
      have := (hopen.mp ho).1
      simp [hperrors,this]
    · rename_i ho
      have hsignals : s.signals ≠ 0 := fun hs => ho (hopen.mpr ⟨hs,nofun⟩)
      simp only [reduceCtorEq,if_false] at hperrors
      omega
  | sigint hp =>
    rw [closeSock_eq]
    refine ⟨hstatuses,hrounds,hended,by simp,?_,nofun⟩
    rw [if_neg hp] at hperrors
    simp only [closeSock_perrors,if_neg hp]
    split
    · rename_i ho
      have := (hopen.mp ho).1
      omega
    · rename_i ho
      have hsignals : s.signals ≠ 0 := fun hs => ho (hopen.mpr ⟨hs,hp⟩)
      omega

theorem reachable_counted {memory : Int} {s : Client} (h : (clientSystem memory).Reachable s) : Counted s := by
  refine System.invariant (P := Counted) ?_ (fun s a t _ hs ha => hs.effect (Client.step_effect a ha)) h
  rintro s rfl
  exact ⟨rfl,.inl (show 0 < NUMBER_OF_MESSAGES by decide),by simp,by simp,by simp,fun _ => rfl⟩

/-- What a step over a closed socket leaves as it was, and the status that it may print. -/
theorem Effect.closed {s t : Client} (he : Effect s t) (h : s.sockOpen = false) :
    t.sockOpen = false ∧ t.sent = s.sent ∧ t.spinfo_state = s.spinfo_state ∧
      ∃ n, t.statuses = s.statuses ++ List.replicate n s.spinfo_state := by
  have hsame : s.statuses = s.statuses ++ List.replicate 0 s.spinfo_state := (List.append_nil _).symm
  cases he with
  | send hp => exact ⟨h,by simp [h],rfl,0,hsame⟩
  | getsockopt found hp =>
    rw [peerAddrInfo_closed h]
    exact ⟨h,rfl,rfl,0,hsame⟩
  | print hp => exact ⟨h,rfl,rfl,1,rfl⟩
  | again hp hi => exact ⟨h,rfl,rfl,0,hsame⟩
  | last hp hi => exact ⟨h,rfl,rfl,0,hsame⟩
  | close hp | sigint hp =>
    rw [closeSock_eq]
    exact ⟨closeSock_sockOpen s,rfl,rfl,0,hsame⟩

theorem run_closed {memory : Int} {s t : Client} {as : List Action}
    (hrun : (clientSystem memory).run s as = some t) (h : s.sockOpen = false) :
    t.sent = s.sent ∧ ∃ n, t.statuses = s.statuses ++ List.replicate n s.spinfo_state := by
  induction as generalizing s with
  | nil =>
    cases hrun
    exact ⟨rfl,0,(List.append_nil _).symm⟩
  | cons a as ih =>
    obtain ⟨u,hu,hrest⟩ := Option.bind_eq_some_iff.mp hrun
    obtain ⟨hclosed,hsent,hstate,n,hn⟩ := (Client.step_effect a hu).closed h
    obtain ⟨hsent',m,hm⟩ := ih hrest hclosed
    refine ⟨hsent'.trans hsent,n + m,?_⟩
    rw [hm,hn,hstate,List.append_assoc,List.replicate_append_replicate]

end MyCpp.Sctp
