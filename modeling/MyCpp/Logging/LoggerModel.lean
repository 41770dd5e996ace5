import MyCpp.Library.FileStore

/-! The Logger class of Logger.h with the files and console it writes to. The clock, the
time zone and the outcome of every rename and open belong to the environment. The library's
localtime returns NULL for a time_t whose year does not fit an int, and strftime on that NULL
ends the process: such a call does not return. -/
namespace MyCpp.Logging
open FileStore

/-- A std::string: chars of one byte each. -/
abbrev Text := List Char

inductive LogLevel where
  | INFO
  | WARNING
  | ERROR
  | DEBUG
  deriving DecidableEq

/-- The value of an enumerator, by its position in the declaration. -/
def LogLevel.value : LogLevel → Nat
  | INFO => 0
  | WARNING => 1
  | ERROR => 2
  | DEBUG => 3

def levelToString : LogLevel → Text
  | .INFO => "INFO".toList
  | .WARNING => "WARNING".toList
  | .ERROR => "ERROR".toList
  | .DEBUG => "DEBUG".toList

structure Tm where
  tm_sec : Nat
  tm_min : Nat
  tm_hour : Nat
  tm_mday : Nat
  tm_mon : Nat
  tm_year : Int

def twoDigits (n : Nat) : Text := if n < 10 then '0' :: (toString n).toList else (toString n).toList

/-- strftime with the format "%Y-%m-%d %H:%M:%S". -/
def strftime (t : Tm) : Text :=
  (toString (t.tm_year + 1900)).toList ++ "-".toList ++ twoDigits (t.tm_mon + 1) ++ "-".toList ++
    twoDigits t.tm_mday ++ " ".toList ++ twoDigits t.tm_hour ++ ":".toList ++ twoDigits t.tm_min ++
    ":".toList ++ twoDigits t.tm_sec

/-- The object and what it has done to the outside: `rotated` lists the names that
rotations have moved the log file to, oldest first. -/
structure Logger where
  currentLevel : LogLevel
  logFilePath : Text
  toFile : Bool
  maxFileSize : Nat
  is_open : Bool
  files : Files Text Text
  rotated : List Text := []
  cout : List Text := []
  cerr : List Text := []

/-- The environment of one call: the clock when the record is made and when a rotation
asks for its name, and whether a rename and an open would succeed. -/
structure Moment where
  now : Int
  rotationTime : Int
  renameOk : Bool := true
  openOk : Bool := true

def construct (level : LogLevel) (filePath : Text) (maxSize : Nat) (openOk : Bool)
    (files : Files Text Text) : Logger :=
  if filePath = [] then ⟨level,filePath,false,maxSize,false,files,[],[],[]⟩
  else if openOk then ⟨level,filePath,true,maxSize,true,files.openAppend filePath [],[],[],[]⟩
  else ⟨level,filePath,false,maxSize,false,files,[],[],["Failed to open log file!\n".toList]⟩

/-- The rest of a rotation, once the timestamp of the new name is there. The result of rename is
not looked at, and a failed open leaves the stream closed. -/
def renameAndReopen (stamp : Text) (m : Moment) (l : Logger) : Logger :=
  let newFileName := l.logFilePath ++ ".".toList ++ stamp
  let l := if m.renameOk then
    { l with files := l.files.rename l.logFilePath newFileName, rotated := l.rotated ++ [newFileName] }
    else l
  if m.openOk then { l with files := l.files.openAppend l.logFilePath [], is_open := true }
  else { l with
    is_open := false
    cerr := l.cerr ++ ["Failed to open new log file after rotation!\n".toList] }

/-- A line to the stream, which swallows it when it is not open. -/
def writeLine (line : Text) (l : Logger) : Logger :=
  if l.is_open then { l with files := l.files.append l.logFilePath (line ++ "\n".toList) } else l

def printLine (line : Text) (l : Logger) : Logger := { l with cout := l.cout ++ [line ++ "\n".toList] }

/-- The start of a record: time, level and, with a file name, the place in the source. -/
def recordHeader (stamp : Text) (level : LogLevel) (fileName : Text) (lineNumber : Int) : Text :=
  stamp ++ " [".toList ++ levelToString level ++ "] ".toList ++
    if fileName ≠ [] then fileName ++ ":".toList ++ (toString lineNumber).toList ++ " ".toList else []

/-- Calls of log; `message` is what operator<< makes of the argument. -/
inductive Call where
  | log (level : LogLevel) (message : Text) (fileName : Text) (lineNumber : Int)
  | logTime (level : LogLevel) (timeValue : Int) (fileName : Text) (lineNumber : Int)

section Zone
variable (localtime : Int → Option Tm)

def getTimestamp (now : Int) : Option Text := (localtime now).map strftime

def rotateLogFile (m : Moment) (l : Logger) : Option Logger :=
  match l.files l.logFilePath with
  | some content =>
    if l.maxFileSize ≤ content.length then
      (getTimestamp localtime m.rotationTime).map fun stamp => renameAndReopen stamp m l
    else some l
  | none => some l

/-- The part that both overloads end with: a line to the file or to the console. -/
def output (m : Moment) (line : Text) (l : Logger) : Option Logger :=
  if l.toFile then (rotateLogFile localtime m l).map (writeLine line) else some (printLine line l)

def record (m : Moment) : Call → Option Text
  | .log level message fileName lineNumber =>
    (getTimestamp localtime m.now).map fun stamp =>
      recordHeader stamp level fileName lineNumber ++ message
  | .logTime level timeValue fileName lineNumber =>
    (getTimestamp localtime m.now).bind fun stamp => (localtime timeValue).map fun ptm =>
      recordHeader stamp level fileName lineNumber ++ "Time: ".toList ++ strftime ptm

/-- The template overload. -/
def log (m : Moment) (level : LogLevel) (message fileName : Text) (lineNumber : Int) (l : Logger) :
    Option Logger :=
  if l.currentLevel.value ≤ level.value then
    (record localtime m (.log level message fileName lineNumber)).bind fun line => output localtime m line l
  else some l

/-- The time_t overload, which has no test on the level. -/
def logTime (m : Moment) (level : LogLevel) (timeValue : Int) (fileName : Text) (lineNumber : Int)
    (l : Logger) : Option Logger :=
  (record localtime m (.logTime level timeValue fileName lineNumber)).bind fun line =>
    output localtime m line l

def Logger.call (l : Logger) (c : Moment × Call) : Option Logger :=
  match c.2 with
  | .log level message fileName lineNumber => log localtime c.1 level message fileName lineNumber l
  | .logTime level timeValue fileName lineNumber => logTime localtime c.1 level timeValue fileName lineNumber l

/-- Calls in the order in which they take the mutex. -/
def Logger.calls (l : Logger) (cs : List (Moment × Call)) : Option Logger :=
  cs.foldlM (Logger.call localtime) l

end Zone
end MyCpp.Logging
