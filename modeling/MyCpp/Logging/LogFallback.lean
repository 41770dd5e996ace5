import MyCpp.Logging.LogRotation

/-! Where the records go when files cannot be opened. The constructor falls back to the
console; a rotation that cannot reopen its file keeps on writing to a closed stream. -/
namespace MyCpp.Logging
open FileStore

/-- A logger to a file whose rotated files are all still there. -/
structure Kept (l : Logger) : Prop where
  toFile : l.toFile = true
  apart : l.logFilePath ∉ l.rotated
  exist : ∀ name ∈ l.rotated, l.files name ≠ none
  opened : l.is_open = true → l.files l.logFilePath ≠ none

theorem survivingText_congr {l k : Logger} (hp : k.logFilePath = l.logFilePath) (hr : k.rotated = l.rotated)
    (hf : ∀ name ∈ l.rotated, k.files name = l.files name)
    (hl : (k.files l.logFilePath).getD [] = (l.files l.logFilePath).getD []) :
    survivingText k = survivingText l := by
  rw [survivingText,survivingText,hp,hr,hl]
  congr 1
  apply List.flatMap_congr
  intro name hname
  rw [hf name hname]

theorem Kept.reopen {l : Logger} (h : Kept l) :
    Kept { l with files := l.files.openAppend l.logFilePath [], is_open := true } ∧
    survivingText { l with files := l.files.openAppend l.logFilePath [], is_open := true } =
      survivingText l := by
  have hother : ∀ name ∈ l.rotated, l.files.openAppend l.logFilePath [] name = l.files name := by
    intro name hname
    apply Files.openAppend_other
    intro he
    exact h.apart (he ▸ hname)
  refine ⟨⟨h.toFile,h.apart,?_,?_⟩,survivingText_congr rfl rfl hother ?_⟩
  · intro name hname
    show l.files.openAppend l.logFilePath [] name ≠ none
    rw [hother name hname]
    exact h.exist name hname
  · intro _
    show l.files.openAppend l.logFilePath [] l.logFilePath ≠ none
    rw [Files.openAppend_self]
    exact Option.some_ne_none _
  · show (l.files.openAppend l.logFilePath [] l.logFilePath).getD [] = _
    rw [Files.openAppend_self]
    rfl

theorem Kept.rename {l : Logger} (h : Kept l) {content name : Text}
    (hc : l.files l.logFilePath = some content) (hne : name ≠ l.logFilePath) (hfree : l.files name = none) :
    Kept { l with
      files := l.files.rename l.logFilePath name, rotated := l.rotated ++ [name], is_open := false } ∧
    survivingText { l with
      files := l.files.rename l.logFilePath name, rotated := l.rotated ++ [name], is_open := false } =
        survivingText l := by
  have hother : ∀ old ∈ l.rotated, l.files.rename l.logFilePath name old = l.files old := by
    intro old hold
    apply Files.rename_other
    · intro he
      exact h.apart (he ▸ hold)
    · intro he
      exact h.exist old hold (he ▸ hfree)
  have htarget : l.files.rename l.logFilePath name name = some content := Files.rename_target hc name
  constructor
  · refine ⟨h.toFile,?_,?_,nofun⟩
    · intro hmem
      rcases List.mem_append.mp hmem with hmem | hmem
      · exact h.apart hmem
      · exact hne (List.mem_singleton.mp hmem).symm
    · intro old hold
      show l.files.rename l.logFilePath name old ≠ none
      rcases List.mem_append.mp hold with hold | hold
      · rw [hother old hold]
        exact h.exist old hold
      · rw [List.mem_singleton.mp hold,htarget]
        exact Option.some_ne_none _
  · have hold : (l.rotated.flatMap fun old => (l.files.rename l.logFilePath name old).getD []) =
        l.rotated.flatMap fun old => (l.files old).getD [] := by
      apply List.flatMap_congr
      intro old hmem
      rw [hother old hmem]
    have hsource : l.files.rename l.logFilePath name l.logFilePath = none :=
      Files.rename_source (Ne.symm hne)
    simp only [survivingText,List.flatMap_append,List.flatMap_cons,List.flatMap_nil,hold,htarget,hsource,hc,
      Option.getD_some,Option.getD_none,List.append_nil]

theorem Kept.append {l : Logger} (h : Kept l) (hopen : l.is_open = true) (line : Text) :
    Kept (writeLine line l) ∧ survivingText (writeLine line l) = survivingText l ++ (line ++ "\n".toList) := by
  rw [writeLine,if_pos hopen]
  have hother : ∀ name ∈ l.rotated,
      l.files.append l.logFilePath (line ++ "\n".toList) name = l.files name := by
    intro name hname
    apply Files.append_other
    intro he
    exact h.apart (he ▸ hname)
  have hself : l.files.append l.logFilePath (line ++ "\n".toList) l.logFilePath =
      (l.files l.logFilePath).map (· ++ (line ++ "\n".toList)) := Files.append_self ..
  obtain ⟨content,hc⟩ := Option.ne_none_iff_exists'.mp (h.opened hopen)
  rw [hc,Option.map_some] at hself
  constructor
  · refine ⟨h.toFile,h.apart,?_,?_⟩
    · intro name hname
      show l.files.append l.logFilePath (line ++ "\n".toList) name ≠ none
      rw [hother name hname]
      exact h.exist name hname
    · intro _
      show l.files.append l.logFilePath (line ++ "\n".toList) l.logFilePath ≠ none
      rw [hself]
      exact Option.some_ne_none _
  · have hold : (l.rotated.flatMap fun name =>
        (l.files.append l.logFilePath (line ++ "\n".toList) name).getD []) =
          l.rotated.flatMap fun name => (l.files name).getD [] := by
      apply List.flatMap_congr
      intro name hname
      rw [hother name hname]
    show (l.rotated.flatMap fun name => (l.files.append l.logFilePath (line ++ "\n".toList) name).getD []) ++
      (l.files.append l.logFilePath (line ++ "\n".toList) l.logFilePath).getD [] = _
    rw [hold,hself,survivingText,hc,Option.getD_some,Option.getD_some,List.append_assoc]

/-- The steps of a rotation between the close and the reopening. -/
theorem rename_cases (stamp : Text) (m : Moment) (l : Logger) :
    ∃ k : Logger, (k = { l with is_open := false } ∧ m.renameOk = false ∨
        m.renameOk = true ∧ k = { l with
          files := l.files.rename l.logFilePath (rotatedName l.logFilePath stamp)
          rotated := l.rotated ++ [rotatedName l.logFilePath stamp]
          is_open := false }) ∧
      renameAndReopen stamp m l = if m.openOk then
          { k with files := k.files.openAppend k.logFilePath [], is_open := true }
        else { k with cerr := k.cerr ++ ["Failed to open new log file after rotation!\n".toList] } := by
  simp only [renameAndReopen]
  cases m.renameOk with
  | false => exact ⟨_,.inl ⟨rfl,rfl⟩,rfl⟩
  | true => exact ⟨_,.inr ⟨rfl,rfl⟩,rfl⟩

theorem renameAndReopen_is_open (stamp : Text) (m : Moment) (l : Logger) :
    (renameAndReopen stamp m l).is_open = m.openOk := by
  obtain ⟨k,hk,hrot⟩ := rename_cases stamp m l
  have hclosed : k.is_open = false := by
    rcases hk with ⟨rfl,_⟩ | ⟨_,rfl⟩
    · rfl
    · rfl
  rw [hrot]
  cases m.openOk with
  | true => rfl
  | false => exact hclosed

theorem renameAndReopen_cout (stamp : Text) (m : Moment) (l : Logger) :
    (renameAndReopen stamp m l).cout = l.cout := by
  obtain ⟨k,hk,hrot⟩ := rename_cases stamp m l
  have hcout : k.cout = l.cout := by
    rcases hk with ⟨rfl,_⟩ | ⟨_,rfl⟩
    · rfl
    · rfl
  rw [hrot]
  cases m.openOk with
  | true => exact hcout
  | false => exact hcout

section Zone
variable (localtime : Int → Option Tm)

/-- The call would rename the log file to a name that is taken. -/
def Replaces (m : Moment) (l : Logger) : Prop :=
  l.toFile = true ∧ Full l ∧ m.renameOk = true ∧
    ∃ stamp ∈ getTimestamp localtime m.rotationTime, l.files (rotatedName l.logFilePath stamp) ≠ none

instance (m : Moment) (l : Logger) : Decidable (Replaces localtime m l) :=
  inferInstanceAs (Decidable (_ ∧ Full l ∧ _ ∧
    ∃ stamp ∈ getTimestamp localtime m.rotationTime, l.files (rotatedName l.logFilePath stamp) ≠ none))

/-- No rename of the run replaces a file. -/
def NeverReplaces (l : Logger) : List (Moment × Text) → Prop
  | [] => True
  | (m,line) :: es => ¬ Replaces localtime m l ∧ ∀ k ∈ output localtime m line l, NeverReplaces k es

instance decidableNeverReplaces (l : Logger) :
    (es : List (Moment × Text)) → Decidable (NeverReplaces localtime l es)
  | [] => inferInstanceAs (Decidable True)
  | (m,line) :: es =>
    have := fun k => decidableNeverReplaces k es
    inferInstanceAs (Decidable (_ ∧ ∀ k ∈ output localtime m line l, NeverReplaces localtime k es))

variable {localtime} {l k : Logger} {m : Moment} {line : Text}

/-- A rotation keeps the text of the log files, whatever its system calls do. -/
theorem Kept.rotate (h : Kept l) (hm : ¬ Replaces localtime m l) (hk : rotateLogFile localtime m l = some k) :
    Kept k ∧ survivingText k = survivingText l := by
  rcases rotate_cases hk with ⟨_,rfl⟩ | ⟨hfull,stamp,hstamp,rfl⟩
  · exact ⟨h,rfl⟩
  · obtain ⟨j,hj,hrot⟩ := rename_cases stamp m l
    have hkept : Kept j ∧ survivingText j = survivingText l := by
      rcases hj with ⟨rfl,_⟩ | ⟨hr,rfl⟩
      · exact ⟨⟨h.toFile,h.apart,h.exist,nofun⟩,rfl⟩
      · obtain ⟨content,hc,hs⟩ := hfull
        apply h.rename hc (rotatedName_ne _ _)
        by_contra hne
        exact hm ⟨h.toFile,⟨content,hc,hs⟩,hr,stamp,hstamp,hne⟩
    rw [hrot]
    cases m.openOk with
    | true =>
      obtain ⟨hopened,htext⟩ := hkept.1.reopen
      exact ⟨hopened,htext.trans hkept.2⟩
    | false => exact ⟨⟨hkept.1.toFile,hkept.1.apart,hkept.1.exist,hkept.1.opened⟩,hkept.2⟩

/-- One record: it is in the files when the stream is open behind the rotation, and the
files keep their text when it is not. -/
theorem Kept.output (h : Kept l) (hm : ¬ Replaces localtime m l) (hk : output localtime m line l = some k) :
    ∃ j, rotateLogFile localtime m l = some j ∧ Kept k ∧
      survivingText k = survivingText l ++ if j.is_open then line ++ "\n".toList else [] := by
  rw [output_toFile h.toFile] at hk
  obtain ⟨j,hj,rfl⟩ := Option.map_eq_some_iff.mp hk
  obtain ⟨hkept,htext⟩ := h.rotate hm hj
  refine ⟨j,hj,?_⟩
  rw [← htext]
  cases hopen : j.is_open with
  | false =>
    rw [writeLine,if_neg (by simp [hopen])]
    exact ⟨hkept,(List.append_nil _).symm⟩
  | true => exact hkept.append hopen line

def linesOf (es : List (Moment × Text)) : Text := es.flatMap fun e => e.2 ++ "\n".toList

theorem linesOf_cons (m : Moment) (line : Text) (es : List (Moment × Text)) :
    linesOf ((m,line) :: es) = (line ++ "\n".toList) ++ linesOf es :=
  List.flatMap_cons

theorem Kept.length_outputs_le (h : Kept l) {es : List (Moment × Text)} (hes : NeverReplaces localtime l es)
    (hk : outputs localtime l es = some k) :
    (survivingText k).length ≤ (survivingText l).length + (linesOf es).length := by
  induction es generalizing l with
  | nil =>
    cases hk
    exact Nat.le_add_right _ _
  | cons e es ih =>
    obtain ⟨m,line⟩ := e
    rw [outputs_cons] at hk
    obtain ⟨i,hi,hk⟩ := Option.bind_eq_some_iff.mp hk
    obtain ⟨j,_,hkept,htext⟩ := h.output hes.1 hi
    have hrest := ih hkept (hes.2 i hi) hk
    have hgrow : (survivingText i).length ≤ (survivingText l).length + (line ++ "\n".toList).length := by
      rw [htext,List.length_append]
      split
      · exact Nat.le_refl _
      · exact Nat.le_add_right _ _
    rw [linesOf_cons,List.length_append]
    omega

/-- Every rotation of the run gets its file open again. The size of the log, the lengths of
the records and the outcomes of the renames decide which calls rotate. -/
def Reopens (maxFileSize : Nat) : Nat → List (Moment × Text) → Prop
  | _, [] => True
  | size, (m,line) :: es =>
    if maxFileSize ≤ size then m.openOk = true ∧
      Reopens maxFileSize (if m.renameOk then line.length + 1 else size + (line.length + 1)) es
    else Reopens maxFileSize (size + (line.length + 1)) es

theorem output_unrenamed {text : Text} (h : Ready l text) (hs : l.maxFileSize ≤ text.length)
    (hr : m.renameOk = false) (hopen : m.openOk = true) (hk : output localtime m line l = some k) :
    Ready k (text ++ (line ++ "\n".toList)) ∧ k.maxFileSize = l.maxFileSize := by
  rw [output_toFile h.toFile,rotate_full (h.full_iff.mpr hs),Option.map_map] at hk
  obtain ⟨stamp,_,hk⟩ := Option.map_eq_some_iff.mp hk
  have hk' : k = { l with
      files := (l.files.openAppend l.logFilePath []).append l.logFilePath (line ++ "\n".toList)
      is_open := true } := by
    rw [← hk]
    simp [writeLine,renameAndReopen,hr,hopen]
  rw [hk']
  refine ⟨⟨h.toFile,rfl,?_⟩,rfl⟩
  refine (Files.append_self ..).trans ?_
  rw [Files.openAppend_self,h.holds]
  rfl

/-- A ready logger after a record that got its file: what it holds and how long it is. -/
theorem ready_output {text : Text} (h : Ready l text) (hopen : l.maxFileSize ≤ text.length → m.openOk = true)
    (hk : output localtime m line l = some k) :
    ∃ text', Ready k text' ∧ k.maxFileSize = l.maxFileSize ∧
      text'.length = if l.maxFileSize ≤ text.length ∧ m.renameOk = true then line.length + 1
        else text.length + (line.length + 1) := by
  by_cases hs : l.maxFileSize ≤ text.length
  · cases hr : m.renameOk with
    | true =>
      obtain ⟨_,_,hw,_⟩ := output_rotate h hs ⟨hr,hopen hs⟩ hk
      exact ⟨_,hw.ready,hw.size,by simp [hs]⟩
    | false =>
      obtain ⟨hready,hsize⟩ := output_unrenamed h hs hr (hopen hs) hk
      exact ⟨_,hready,hsize,by simp⟩
  · obtain ⟨k',hk',hw⟩ := output_keep localtime h hs m line
    rw [hk] at hk'
    cases hk'
    exact ⟨_,hw.ready,hw.size,by simp [hs]⟩

theorem Ready.is_open_iff {text : Text} (h : Ready l text) (hk : rotateLogFile localtime m l = some k) :
    k.is_open = true ↔ (l.maxFileSize ≤ text.length → m.openOk = true) := by
  rcases rotate_cases hk with ⟨hnot,rfl⟩ | ⟨hfull,stamp,_,rfl⟩
  · rw [h.full_iff] at hnot
    simp [hnot,h.is_open]
  · rw [renameAndReopen_is_open]
    simp [h.full_iff.mp hfull]

theorem reopens_cons (maxFileSize size : Nat) (m : Moment) (line : Text) (es : List (Moment × Text)) :
    Reopens maxFileSize size ((m,line) :: es) ↔ (maxFileSize ≤ size → m.openOk = true) ∧
      Reopens maxFileSize (if maxFileSize ≤ size ∧ m.renameOk = true then line.length + 1
        else size + (line.length + 1)) es := by
  rw [Reopens]
  by_cases hs : maxFileSize ≤ size
  · simp [hs]
  · simp [hs]

/-- The files hold every record exactly when every rotation reopened its file. -/
theorem Ready.outputs_iff {text : Text} (h : Ready l text) (hkept : Kept l) {es : List (Moment × Text)}
    (hes : NeverReplaces localtime l es) (hk : outputs localtime l es = some k) :
    survivingText k = survivingText l ++ linesOf es ↔ Reopens l.maxFileSize text.length es := by
  induction es generalizing l text with
  | nil =>
    cases hk
    rw [linesOf,List.flatMap_nil,List.append_nil]
    exact ⟨fun _ => trivial,fun _ => rfl⟩
  | cons e es ih =>
    obtain ⟨m,line⟩ := e
    rw [outputs_cons] at hk
    obtain ⟨i,hi,hk⟩ := Option.bind_eq_some_iff.mp hk
    obtain ⟨j,hj,hkept',htext⟩ := hkept.output hes.1 hi
    rw [linesOf_cons,reopens_cons,← h.is_open_iff hj]
    cases hopen : j.is_open with
    | true =>
      obtain ⟨text',hready,hsize,hlen⟩ := ready_output h ((h.is_open_iff hj).mp hopen) hi
      have hrest := ih hready hkept' (hes.2 i hi) hk
      rw [htext,if_pos hopen,hsize,hlen,List.append_assoc] at hrest
      rw [hrest]
      exact ⟨fun hre => ⟨rfl,hre⟩,fun hre => hre.2⟩
    | false =>
      rw [hopen] at htext
      constructor
      · intro heq
        have hbound := hkept'.length_outputs_le (hes.2 i hi) hk
        rw [heq,htext] at hbound
        simp at hbound
        omega
      · intro hre
        cases hre.1

theorem Kept.outputs_cout (h : Kept l) {es : List (Moment × Text)} (hes : NeverReplaces localtime l es)
    (hk : outputs localtime l es = some k) : k.cout = l.cout := by
  induction es generalizing l with
  | nil =>
    cases hk
    rfl
  | cons e es ih =>
    obtain ⟨m,line⟩ := e
    rw [outputs_cons] at hk
    obtain ⟨i,hi,hk⟩ := Option.bind_eq_some_iff.mp hk
    obtain ⟨_,_,hkept,_⟩ := h.output hes.1 hi
    rw [ih hkept (hes.2 i hi) hk]
    rw [output_toFile h.toFile] at hi
    obtain ⟨j,hj,rfl⟩ := Option.map_eq_some_iff.mp hi
    have hcout : j.cout = l.cout := by
      rcases rotate_cases hj with ⟨_,rfl⟩ | ⟨_,stamp,_,rfl⟩
      · rfl
      · exact renameAndReopen_cout stamp m l
    rw [← hcout,writeLine]
    split <;> rfl

/-- A logger to the console prints every record, without asking for the time again. -/
theorem outputs_console (h : l.toFile = false) (es : List (Moment × Text)) :
    outputs localtime l es = some { l with cout := l.cout ++ es.map fun e => e.2 ++ "\n".toList } := by
  induction es generalizing l with
  | nil => simp [outputs]
  | cons e es ih =>
    obtain ⟨m,line⟩ := e
    rw [outputs_cons,output_console h,Option.bind_some]
    apply (ih (l := printLine line l) h).trans
    simp [printLine]

/-- The log files and the console hold the initial content and every record. -/
def EveryRecordOutput (initial : Text) (es : List (Moment × Text)) (l : Logger) : Prop :=
  survivingText l ++ l.cout.flatten = initial ++ linesOf es

instance (initial : Text) (es : List (Moment × Text)) (l : Logger) :
    Decidable (EveryRecordOutput initial es l) :=
  inferInstanceAs (Decidable (_ = _))

theorem console_every_record (h : l.toFile = false) (hr : l.rotated = []) (hc : l.cout = [])
    {es : List (Moment × Text)} (hk : outputs localtime l es = some k) :
    EveryRecordOutput ((l.files l.logFilePath).getD []) es k := by
  rw [outputs_console h] at hk
  cases hk
  rw [EveryRecordOutput,survivingText]
  simp only [hr,hc,List.nil_append,linesOf,List.flatMap_def]
  rfl

theorem file_every_record_iff {text : Text} (h : Ready l text) (hr : l.rotated = []) (hc : l.cout = [])
    {es : List (Moment × Text)} (hes : NeverReplaces localtime l es) (hk : outputs localtime l es = some k) :
    EveryRecordOutput text es k ↔ Reopens l.maxFileSize text.length es := by
  have hkept : Kept l := by
    refine ⟨h.toFile,?_,?_,?_⟩
    · rw [hr]
      exact nofun
    · rw [hr]
      exact nofun
    · intro _
      rw [h.holds]
      exact Option.some_ne_none _
  have hstart : survivingText l = text := by
    rw [survivingText,hr,h.holds]
    rfl
  rw [← h.outputs_iff hkept hes hk,hstart,EveryRecordOutput,hkept.outputs_cout hes hk,hc,List.flatten_nil,
    List.append_nil]

variable (localtime)

/-- Any logger, any calls with local times for all their time_t values, and any file system
whose renames replace nothing: the calls return, and no record is missing exactly when the
logger writes to the console from the start or every rotation gets its file open again. -/
theorem every_record_output_iff (level : LogLevel) (path : Text) (maxSize : Nat) (openOk : Bool)
    (files : Files Text Text) (cs : List (Moment × Call)) (htimes : HaveLocalTimes localtime level cs) :
    ∃ es l, records localtime level cs = some es ∧
      (construct level path maxSize openOk files).calls localtime cs = some l ∧
      (NeverReplaces localtime (construct level path maxSize openOk files) es →
        (EveryRecordOutput ((files path).getD []) es l ↔
          path = [] ∨ openOk = false ∨ Reopens maxSize ((files path).getD []).length es)) := by
  have hlevel := construct_currentLevel level path maxSize openOk files
  obtain ⟨es,l,hes,hl,hcalls⟩ := calls_return (l := construct level path maxSize openOk files)
    (by rwa [hlevel])
  rw [hlevel] at hes
  refine ⟨es,l,hes,hcalls,fun h => ?_⟩
  by_cases hpath : path = []
  · rw [construct,if_pos hpath] at hl
    exact ⟨fun _ => .inl hpath,fun _ => console_every_record rfl rfl rfl hl⟩
  · cases openOk with
    | false =>
      rw [construct,if_neg hpath] at hl
      exact ⟨fun _ => .inr (.inl rfl),fun _ => console_every_record rfl rfl rfl hl⟩
    | true =>
      have hready := construct_ready level hpath maxSize files
      rw [construct_eq level hpath] at h hl hready
      have hiff := file_every_record_iff hready rfl rfl h hl
      simp only [hpath,Bool.true_eq_false,false_or]
      exact hiff

end Zone

/-- Three one-letter messages; the open in the rotation of the second has the given outcome. -/
def reopeningCalls (openOk : Bool) : List (Moment × Call) :=
  [({ now := 5, rotationTime := 5 },.log .INFO ['a'] [] 0),
    ({ now := 6, rotationTime := 6, openOk := openOk },.log .INFO ['b'] [] 0),
    ({ now := 7, rotationTime := 7 },.log .INFO ['c'] [] 0)]

/-- With opens that succeed. -/
theorem every_record_output_iff_reopened : ∃ es l,
    records firstHour .INFO (reopeningCalls true) = some es ∧
    (construct .INFO ['l'] 1 true fun _ => none).calls firstHour (reopeningCalls true) = some l ∧
    EveryRecordOutput [] es l := by
  obtain ⟨es,l,hes,hl,hiff⟩ := every_record_output_iff firstHour .INFO ['l'] 1 true (fun _ => none)
    (reopeningCalls true) (by decide)
  have hnever : ∀ es ∈ records firstHour .INFO (reopeningCalls true),
      NeverReplaces firstHour (construct .INFO ['l'] 1 true fun _ => none) es := by decide
  refine ⟨es,l,hes,hl,(hiff (hnever es hes)).mpr (.inr (.inr ?_))⟩
  cases hes
  simp [Reopens]

/-- The open of the second call's rotation fails: only the first record is anywhere, though
a later open would have succeeded. -/
theorem failed_reopen_loses_records : HaveLocalTimes firstHour .INFO (reopeningCalls false) ∧
    (∀ c ∈ reopeningCalls false, passes .INFO c.2 = true) ∧
    ∃ es ∈ records firstHour .INFO (reopeningCalls false),
    ∃ l ∈ (construct .INFO ['l'] 1 true fun _ => none).calls firstHour (reopeningCalls false),
      NeverReplaces firstHour (construct .INFO ['l'] 1 true fun _ => none) es ∧
      survivingText l ++ l.cout.flatten = linesOf (es.take 1) ∧ ¬ EveryRecordOutput [] es l := by
  refine ⟨by decide,by decide,?_⟩
  decide +kernel

end MyCpp.Logging
