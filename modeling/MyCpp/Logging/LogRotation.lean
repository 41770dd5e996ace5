import Mathlib.Data.List.Nodup
import MyCpp.Logging.LogReturns

/-! Rotation keeps every record as long as no two rotations ask for the same name. The log
is followed as a text that is cut into pieces; the sizes alone decide where. -/
namespace MyCpp.Logging
open FileStore

/-- The clock at the rotations, from the size of the log and the lengths of the records. -/
def rotationTimes (maxFileSize : Nat) : Nat → List (Moment × Text) → List Int
  | _, [] => []
  | size, (m,line) :: rest =>
    if maxFileSize ≤ size then m.rotationTime :: rotationTimes maxFileSize (line.length + 1) rest
    else rotationTimes maxFileSize (size + (line.length + 1)) rest

/-- The pieces that rotations cut off a log. -/
def pieces (maxFileSize : Nat) : Text → List (Moment × Text) → List Text
  | _, [] => []
  | text, (_,line) :: rest =>
    if maxFileSize ≤ text.length then text :: pieces maxFileSize (line ++ "\n".toList) rest
    else pieces maxFileSize (text ++ (line ++ "\n".toList)) rest

def lastPiece (maxFileSize : Nat) : Text → List (Moment × Text) → Text
  | text, [] => text
  | text, (_,line) :: rest =>
    if maxFileSize ≤ text.length then lastPiece maxFileSize (line ++ "\n".toList) rest
    else lastPiece maxFileSize (text ++ (line ++ "\n".toList)) rest

theorem pieces_flatten (maxFileSize : Nat) (text : Text) (es : List (Moment × Text)) :
    (pieces maxFileSize text es).flatten ++ lastPiece maxFileSize text es =
      text ++ es.flatMap fun e => e.2 ++ "\n".toList := by
  induction es generalizing text with
  | nil => simp [pieces,lastPiece]
  | cons e es ih =>
    obtain ⟨m,line⟩ := e
    rw [pieces,lastPiece,List.flatMap_cons]
    split
    · rw [List.flatten_cons,List.append_assoc,ih]
    · rw [ih,List.append_assoc]

def rotatedName (path stamp : Text) : Text := path ++ ".".toList ++ stamp

theorem rotatedName_injective (path : Text) : Function.Injective (rotatedName path) :=
  fun _ _ h => List.append_cancel_left h

theorem rotatedName_ne (path stamp : Text) : rotatedName path stamp ≠ path := by
  intro h
  have hlen := congrArg List.length h
  simp [rotatedName] at hlen

/-- A logger that writes to its file, which holds `text`. -/
structure Ready (l : Logger) (text : Text) : Prop where
  toFile : l.toFile = true
  is_open : l.is_open = true
  holds : l.files l.logFilePath = some text

/-- What writing does to a ready logger: rotations went to `names`, the log holds `text`,
and no other file was touched. -/
structure Wrote (l k : Logger) (text : Text) (names : List Text) : Prop where
  ready : Ready k text
  path : k.logFilePath = l.logFilePath
  size : k.maxFileSize = l.maxFileSize
  rotated : k.rotated = l.rotated ++ names
  others : ∀ q, q ≠ l.logFilePath → q ∉ names → k.files q = l.files q

theorem Ready.wrote {l : Logger} {text : Text} (h : Ready l text) : Wrote l l text [] :=
  ⟨h,rfl,rfl,by simp,fun q _ _ => rfl⟩

theorem Wrote.trans {l k j : Logger} {text text' : Text} {names names' : List Text}
    (h : Wrote l k text names) (h' : Wrote k j text' names') : Wrote l j text' (names ++ names') := by
  refine ⟨h'.ready,h'.path.trans h.path,h'.size.trans h.size,?_,fun q hq hn => ?_⟩
  · rw [h'.rotated,h.rotated,List.append_assoc]
  · rw [List.mem_append,not_or] at hn
    rw [h'.others q (by rwa [h.path]) hn.2,h.others q hq hn.1]

/-- Every rename and every open of these calls succeeds. -/
def AllSucceed {α : Type*} (es : List (Moment × α)) : Prop :=
  ∀ e ∈ es, e.1.renameOk = true ∧ e.1.openOk = true

section Zone
variable {localtime : Int → Option Tm} {l k : Logger} {text : Text}

theorem Ready.full_iff (h : Ready l text) : Full l ↔ l.maxFileSize ≤ text.length := by
  constructor
  · intro hfull
    obtain ⟨content,hc,hs⟩ := hfull
    rw [h.holds,Option.mem_some] at hc
    exact hc ▸ hs
  · intro hs
    exact ⟨text,h.holds,hs⟩

theorem output_keep (localtime : Int → Option Tm) (h : Ready l text) (hs : ¬ l.maxFileSize ≤ text.length)
    (m : Moment) (line : Text) :
    ∃ k, output localtime m line l = some k ∧ Wrote l k (text ++ (line ++ "\n".toList)) [] := by
  have hnot : ¬ Full l := by rwa [h.full_iff]
  have hout : output localtime m line l =
      some { l with files := l.files.append l.logFilePath (line ++ "\n".toList) } := by
    rw [output_toFile h.toFile,rotate_not_full hnot,Option.map_some,writeLine,if_pos h.is_open]
  refine ⟨_,hout,⟨h.toFile,h.is_open,?_⟩,rfl,rfl,by simp,fun q hq _ => Files.append_other _ hq _⟩
  exact (Files.append_self ..).trans (by rw [h.holds]; rfl)

/-- A write behind a rotation whose system calls succeed. -/
theorem output_rotate (h : Ready l text) (hs : l.maxFileSize ≤ text.length) {m : Moment}
    (hm : m.renameOk = true ∧ m.openOk = true) {line : Text} (hk : output localtime m line l = some k) :
    ∃ stamp, getTimestamp localtime m.rotationTime = some stamp ∧
      Wrote l k (line ++ "\n".toList) [rotatedName l.logFilePath stamp] ∧
      k.files (rotatedName l.logFilePath stamp) = some text := by
  rw [output_toFile h.toFile,rotate_full (h.full_iff.mpr hs),Option.map_map] at hk
  obtain ⟨stamp,hstamp,hk⟩ := Option.map_eq_some_iff.mp hk
  have hne : rotatedName l.logFilePath stamp ≠ l.logFilePath := rotatedName_ne _ _
  have hk' : k = { l with
      files := ((l.files.rename l.logFilePath (rotatedName l.logFilePath stamp)).openAppend
        l.logFilePath []).append l.logFilePath (line ++ "\n".toList)
      rotated := l.rotated ++ [rotatedName l.logFilePath stamp]
      is_open := true } := by
    rw [← hk]
    simp [writeLine,renameAndReopen,hm.1,hm.2,rotatedName]
  rw [hk']
  refine ⟨stamp,hstamp,⟨⟨h.toFile,rfl,?_⟩,rfl,rfl,rfl,fun q hq hn => ?_⟩,?_⟩
  · refine (Files.append_self ..).trans ?_
    rw [Files.openAppend_self,Files.rename_source hne.symm]
    rfl
  · rw [List.mem_singleton] at hn
    exact (Files.append_other _ hq _).trans <| (Files.openAppend_other _ hq _).trans <|
      Files.rename_other _ hq hn
  · exact (Files.append_other _ hne _).trans <| (Files.openAppend_other _ hne _).trans <|
      Files.rename_target h.holds _

/-- A run moves the pieces to the names of its timestamps; a name keeps its piece as long as no
later rotation takes it. -/
theorem outputs_pieces (h : Ready l text) {es : List (Moment × Text)} (hes : AllSucceed es)
    (hk : outputs localtime l es = some k) : ∃ stamps : List Text,
      (rotationTimes l.maxFileSize text.length es).map (getTimestamp localtime) = stamps.map some ∧
      Wrote l k (lastPiece l.maxFileSize text es) (stamps.map (rotatedName l.logFilePath)) ∧
      (stamps.Nodup → List.Forall₂ (fun stamp piece => k.files (rotatedName l.logFilePath stamp) = some piece)
        stamps (pieces l.maxFileSize text es)) := by
  induction es generalizing l text with
  | nil =>
    cases hk
    exact ⟨[],rfl,h.wrote,fun _ => .nil⟩
  | cons e es ih =>
    obtain ⟨m,line⟩ := e
    have hm := hes _ (List.mem_cons_self ..)
    have hes' : AllSucceed es := fun e he => hes e (List.mem_cons_of_mem _ he)
    rw [outputs_cons] at hk
    obtain ⟨j,hj,hk⟩ := Option.bind_eq_some_iff.mp hk
    rw [lastPiece,rotationTimes,pieces]
    by_cases hs : l.maxFileSize ≤ text.length
    · obtain ⟨stamp,hstamp,hw,hkept⟩ := output_rotate h hs hm hj
      obtain ⟨stamps,hstamps,hrest,hpieces⟩ := ih hw.ready hes' hk
      rw [hw.size,List.length_append] at hstamps
      rw [hw.path,hw.size] at hrest hpieces
      rw [if_pos hs,if_pos hs,if_pos hs]
      refine ⟨stamp :: stamps,?_,hw.trans hrest,fun hnd => ?_⟩
      · rw [List.map_cons,List.map_cons,hstamp]
        exact congrArg _ hstamps
      · obtain ⟨hnew,hnd⟩ := List.nodup_cons.mp hnd
        refine .cons ?_ (hpieces hnd)
        refine (hrest.others _ ?_ ?_).trans hkept
        · rw [hw.path]
          exact rotatedName_ne _ _
        · intro hmem
          obtain ⟨other,hother,he⟩ := List.mem_map.mp hmem
          rw [rotatedName_injective _ he] at hother
          exact hnew hother
    · obtain ⟨j',hj',hw⟩ := output_keep localtime h hs m line
      rw [hj] at hj'
      cases hj'
      obtain ⟨stamps,hstamps,hrest,hpieces⟩ := ih hw.ready hes' hk
      rw [hw.size,List.length_append,List.length_append] at hstamps
      rw [hw.path,hw.size] at hrest hpieces
      rw [if_neg hs,if_neg hs,if_neg hs]
      exact ⟨stamps,hstamps,hw.trans hrest,hpieces⟩

/-- The log files in rotation order, then the current one. -/
def survivingText (l : Logger) : Text :=
  (l.rotated.flatMap fun name => (l.files name).getD []) ++ (l.files l.logFilePath).getD []

/-- No rotation takes the name of an earlier one, and what the files hold together is the
initial content and every record in call order. -/
def NoRecordLost (initial : Text) (es : List (Moment × Text)) (l : Logger) : Prop :=
  l.rotated.Nodup ∧ survivingText l = initial ++ es.flatMap fun e => e.2 ++ "\n".toList

instance (initial : Text) (es : List (Moment × Text)) (l : Logger) : Decidable (NoRecordLost initial es l) :=
  inferInstanceAs (Decidable (_ ∧ _))

theorem flatMap_files_eq {files : Files Text Text} {path : Text} {stamps ps : List Text}
    (h : List.Forall₂ (fun stamp piece => files (rotatedName path stamp) = some piece) stamps ps) :
    ((stamps.map (rotatedName path)).flatMap fun name => (files name).getD []) = ps.flatten := by
  induction h with
  | nil => rfl
  | cons hp _ ih => rw [List.map_cons,List.flatMap_cons,ih,hp,Option.getD_some,List.flatten_cons]

theorem outputs_lost_iff (h : Ready l text) (hl : l.rotated = []) {es : List (Moment × Text)}
    (hes : AllSucceed es) (hk : outputs localtime l es = some k) : NoRecordLost text es k ↔
      ((rotationTimes l.maxFileSize text.length es).map (getTimestamp localtime)).Nodup := by
  obtain ⟨stamps,hstamps,hw,hkept⟩ := outputs_pieces h hes hk
  have hnames := hw.rotated
  rw [hl,List.nil_append] at hnames
  have hnodup : k.rotated.Nodup ↔ stamps.Nodup := by
    rw [hnames]
    exact List.nodup_map_iff (rotatedName_injective _)
  rw [hstamps,List.nodup_map_iff (Option.some_injective _)]
  refine ⟨fun hlost => hnodup.mp hlost.1,fun hnd => ⟨hnodup.mpr hnd,?_⟩⟩
  rw [survivingText,hnames,flatMap_files_eq (hkept hnd),hw.ready.holds,Option.getD_some,pieces_flatten]

theorem AllSucceed.records {cs : List (Moment × Call)} (h : AllSucceed cs) {level : LogLevel}
    {es : List (Moment × Text)} (hes : Logging.records localtime level cs = some es) : AllSucceed es := by
  intro e he
  have hmem : e.1 ∈ (cs.filter fun c => passes level c.2).map Prod.fst :=
    recordAll_moments hes ▸ List.mem_map_of_mem he
  obtain ⟨c,hc,hce⟩ := List.mem_map.mp hmem
  rw [← hce]
  exact h c (List.mem_filter.mp hc).1

theorem construct_eq (level : LogLevel) {path : Text} (hpath : path ≠ []) (maxSize : Nat)
    (files : Files Text Text) : construct level path maxSize true files =
      ⟨level,path,true,maxSize,true,files.openAppend path [],[],[],[]⟩ := by
  rw [construct,if_neg hpath,if_pos rfl]

theorem construct_ready (level : LogLevel) {path : Text} (hpath : path ≠ []) (maxSize : Nat)
    (files : Files Text Text) : Ready (construct level path maxSize true files) ((files path).getD []) := by
  rw [construct_eq level hpath]
  exact ⟨rfl,rfl,Files.openAppend_self ..⟩

variable (localtime)

/-- With a file path, system calls that succeed and local times for every time_t value, calls
return, and they keep every record exactly when their rotations fall on different timestamps. -/
theorem rotation_keeps_records_iff (level : LogLevel) (path : Text) (hpath : path ≠ []) (maxSize : Nat)
    (files : Files Text Text) (cs : List (Moment × Call)) (hcs : AllSucceed cs)
    (htimes : HaveLocalTimes localtime level cs) :
    ∃ es l, records localtime level cs = some es ∧
      (construct level path maxSize true files).calls localtime cs = some l ∧
      (NoRecordLost ((files path).getD []) es l ↔
        ((rotationTimes maxSize ((files path).getD []).length es).map (getTimestamp localtime)).Nodup) := by
  have hready := construct_ready level hpath maxSize files
  have hlevel := construct_currentLevel level path maxSize true files
  obtain ⟨es,l,hes,hl,hcalls⟩ := calls_return (hlevel.symm ▸ htimes)
  rw [hlevel] at hes
  have hiff := outputs_lost_iff hready (by rw [construct_eq level hpath]) (hcs.records hes) hl
  rw [construct_eq level hpath] at hiff hcalls ⊢
  exact ⟨es,l,hes,hcalls,hiff⟩

end Zone

/-- The local time of the first hour of 1970 in Greenwich. -/
def firstHour (t : Int) : Option Tm :=
  if 0 ≤ t ∧ t < 3600 then some ⟨(t % 60).toNat,(t / 60).toNat,0,1,0,70⟩ else none

/-- Three one-letter messages at one reading of the clock each, from second `t` on and
`gap` seconds apart. -/
def threeCalls (t gap : Int) : List (Moment × Call) :=
  [(⟨t,t,true,true⟩,.log .INFO ['a'] [] 0),(⟨t+gap,t+gap,true,true⟩,.log .INFO ['b'] [] 0),
    (⟨t+gap+gap,t+gap+gap,true,true⟩,.logTime .INFO 0 [] 0)]

def clockReadings (cs : List (Moment × Call)) : List Int := cs.flatMap fun c => [c.1.now,c.1.rotationTime]

theorem rotation_overwrites_within_a_second :
    (clockReadings (threeCalls 5 0)).Pairwise (· ≤ ·) ∧ AllSucceed (threeCalls 5 0) ∧
    HaveLocalTimes firstHour .INFO (threeCalls 5 0) ∧ (∀ c ∈ threeCalls 5 0, passes .INFO c.2 = true) ∧
    ∃ es l, records firstHour .INFO (threeCalls 5 0) = some es ∧
      (construct .INFO ['l'] 1 true fun _ => none).calls firstHour (threeCalls 5 0) = some l ∧
      survivingText l ≠ [] ++ (es.flatMap fun e => e.2 ++ "\n".toList) ∧ ¬ NoRecordLost [] es l := by
  refine ⟨by decide,?_,by decide,by decide,_,_,rfl,rfl,by decide,by decide⟩
  unfold AllSucceed
  decide

theorem rotation_keeps_records_iff_seconds_apart : ∃ es l,
    records firstHour .INFO (threeCalls 5 1) = some es ∧
    (construct .INFO ['l'] 1 true fun _ => none).calls firstHour (threeCalls 5 1) = some l ∧
    NoRecordLost [] es l := by
  have hsucceed : AllSucceed (threeCalls 5 1) := by
    unfold AllSucceed
    decide
  obtain ⟨es,l,hes,hl,hiff⟩ := rotation_keeps_records_iff firstHour .INFO ['l'] (by decide) 1 (fun _ => none)
    (threeCalls 5 1) hsucceed (by decide)
  refine ⟨es,l,hes,hl,hiff.mpr ?_⟩
  cases hes
  decide

end MyCpp.Logging
