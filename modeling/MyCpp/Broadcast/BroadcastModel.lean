import MyCpp.Library.TransitionSystem

/-! The broadcast service: simple_client.cxx with its writer thread, its main thread and the two
global strings that they share, and the handler of simple_server.cxx at the other end of the
stream. The stream keeps the order of the messages in each direction. It may break at any time
(deadline, connection, message size): then reads may fail and what is written is lost. -/
namespace MyCpp.Broadcast
open TransitionSystem

/-- A std::string: chars of one byte each. -/
abbrev Text := List Char

/-- The file content that readFileContents leaves in the global, and what it prints. -/
def readFileContents : Option Text → Text × List Text
  | none => ([],["Error: Could not open the file!".toList])
  | some content => (content,[])

/-- What a run depends on: the process id of the client, large_data.json at the server, and the
status that a broken stream ends with. The source has one message. -/
structure Setup where
  pid : Nat
  file : Option Text
  messages : List Text := ["Message ".toList]
  error_code : Nat
  error_message : Text

namespace Setup
variable (c : Setup)

def pidText : Text := (toString c.pid).toList

def file_content : Text := (readFileContents c.file).1

def response : Text := "Broadcasting: ".toList ++ c.file_content

end Setup

/-- The writer thread: what it does next. -/
inductive WriterPc where
  | getpid
  | message
  | log
  | print
  | loop (messages : List Text)
  | done
  deriving DecidableEq

/-- The main thread in Broadcast. -/
inductive ReaderPc where
  | read
  | message (content : Text)
  | log (content : Text)
  | print (content : Text)
  | join
  | finish
  | returned
  deriving DecidableEq

/-- The handler of the server. -/
inductive HandlerPc where
  | read
  | print (request : Text)
  | logReceived (request : Text)
  | logBroadcasted (request : Text)
  | write (request : Text)
  | returned
  deriving DecidableEq

structure Service where
  writer : WriterPc := .getpid
  reader : ReaderPc := .read
  handler : HandlerPc := .read
  pid_str : Text := []
  log_message : Text := []
  toServer : List Text := []
  writesDone : Bool := false
  toClient : List Text := []
  broken : Bool := false
  clientLog : List Text := []
  clientOut : List Text := []
  clientErr : List Text := []
  serverLog : List Text := []
  serverOut : List Text := []

inductive Action where
  | writer
  | reader
  | readFails
  | handler
  | handlerReadFails
  | breakStream

def sendingLine (pid_str : Text) : Text := "Sending req. to server from ".toList ++ pid_str

def receivedLine (pid_str content : Text) : Text :=
  "Received Broadcasted content by client ".toList ++ pid_str ++ "with size ".toList ++
    (toString content.length).toList

def receivedOut (pid_str content : Text) : Text :=
  "Received broadcasted message: by ".toList ++ pid_str ++ "Size".toList ++ (toString content.length).toList

namespace Service
variable (c : Setup)

/-- A write on the stream; its result is looked at nowhere. -/
def writerStep (s : Service) : Option Service :=
  match s.writer with
  | .getpid => some { s with pid_str := c.pidText, writer := .message }
  | .message => some { s with log_message := sendingLine s.pid_str, writer := .log }
  | .log => some { s with clientLog := s.clientLog ++ [s.log_message], writer := .print }
  | .print => some { s with clientOut := s.clientOut ++ [s.log_message], writer := .loop c.messages }
  | .loop (message :: messages) => some { s with
      toServer := if s.broken then s.toServer else s.toServer ++ [message ++ s.pid_str]
      writer := .loop messages }
  | .loop [] => some { s with writesDone := true, writer := .done }
  | .done => none

def readerStep (s : Service) : Option Service :=
  match s.reader with
  | .read => match s.toClient with
    | content :: rest => some { s with toClient := rest, reader := .message content }
    | [] => none
  | .message content => some { s with log_message := receivedLine s.pid_str content, reader := .log content }
  | .log content => some { s with clientLog := s.clientLog ++ [s.log_message], reader := .print content }
  | .print content => some { s with clientOut := s.clientOut ++ [receivedOut s.pid_str content], reader := .read }
  | .join => if s.writer = .done then some { s with reader := .finish } else none
  | .finish => some { s with
      clientErr := if s.broken then s.clientErr ++
          ["Error: ".toList ++ (toString c.error_code).toList ++ ": ".toList ++ c.error_message]
        else s.clientErr
      reader := .returned }
  | .returned => none

def handlerStep (s : Service) : Option Service :=
  match s.handler with
  | .read => match s.toServer with
    | request :: rest => some { s with toServer := rest, handler := .print request }
    | [] => none
  | .print request => some { s with
      serverOut := s.serverOut ++ ["Received message: ".toList ++ request]
      handler := .logReceived request }
  | .logReceived request => some { s with
      serverLog := s.serverLog ++ ["Received data from pid ".toList ++ request]
      handler := .logBroadcasted request }
  | .logBroadcasted request => some { s with
      serverLog := s.serverLog ++ ["Broadcasted large_data.json".toList]
      handler := .write request }
  | .write _ => some { s with
      toClient := if s.broken then s.toClient else s.toClient ++ [c.response]
      handler := .read }
  | .returned => none

/-- The main thread reads on until the stream has ended or is broken, and so does the handler. -/
def step (s : Service) : Action → Option Service
  | .writer => s.writerStep c
  | .reader => s.readerStep c
  | .readFails =>
    if s.reader = .read ∧ (s.broken = true ∨ s.toClient = [] ∧ s.handler = .returned) then
      some { s with reader := .join }
    else none
  | .handler => s.handlerStep c
  | .handlerReadFails =>
    if s.handler = .read ∧ (s.broken = true ∨ s.toServer = [] ∧ s.writesDone = true) then
      some { s with handler := .returned }
    else none
  | .breakStream => if s.broken then none else some { s with broken := true }

end Service

def system (c : Setup) : System Service Action where
  init s := s = {}
  step := Service.step c

end MyCpp.Broadcast
