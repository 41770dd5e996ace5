import Mathlib.Data.List.Basic

/-! dataGenerator.py and dataGenerator-add.py, which differ in their template and their count. The
random choices are an input. What they write is scanned for its tags: a generated file is a
sequence of balanced elements, whatever was chosen. -/
namespace MyCpp.DataGenerator

abbrev Text := List Char

def asciiLetters : Text := "abcdefghijklmnopqrstuvwxyzABCDEFGHIJKLMNOPQRSTUVWXYZ".toList

/-- The choices of random.choice, for each snippet and each of its characters. -/
abbrev Choices := Nat → Nat → Fin 52

def generateRandomString (choice : Nat → Fin 52) (length : Nat) : Text :=
  (List.range length).map fun i => asciiLetters.getD (choice i) 'a'

/-- str.split: the pieces between the occurrences of a separator, found from left to right. `skip`
counts the characters of the last occurrence that are still to be passed over. -/
def splitText (separator : Text) : Nat → Text → List Text
  | _, [] => [[]]
  | skip + 1, _ :: text => splitText separator skip text
  | 0, c :: text =>
    if separator.isPrefixOf (c :: text) then [] :: splitText separator (separator.length - 1) text
    else match splitText separator 0 text with
      | piece :: pieces => (c :: piece) :: pieces
      | [] => [[c]]

/-- str.join. -/
def joinText (separator : Text) : List Text → Text
  | [] => []
  | [piece] => piece
  | piece :: next :: pieces => piece ++ separator ++ joinText separator (next :: pieces)

/-- str.replace: the pieces between the occurrences, joined again by the new text. -/
def replaceText (old new text : Text) : Text := joinText new (splitText old 0 text)

def placeholder : Text := "\x7bTEMPLATE\x7d".toList

def generateXmlTemplate (template randomString : Text) : Text := replaceText placeholder randomString template

def saveXmlToFile (template : Text) (choices : Choices) (count : Nat) : Text :=
  (List.range count).flatMap fun n => generateXmlTemplate template (generateRandomString (choices n) 10)

/-- The template of dataGenerator.py. -/
def modificationTemplate : Text :=
  "\n<modification operation=\"add\">\n".toList ++
  "    <valueObject xsi:type=\"subscriber:PublicUserId\">\n".toList ++
  "        <originalPublicUserId>sip:ZTM\x7bTEMPLATE\x7d!.?.?.?!@nsn.com</originalPublicUserId>\n".toList ++
  "        <defaultIndication>false</defaultIndication>\n".toList ++
  "        <serviceProfileName>4</serviceProfileName>\n".toList ++
  "        <irsId>IRS-01</irsId>\n".toList ++
  "    </valueObject>\n".toList ++
  "</modification>\n    ".toList

/-- The template of dataGenerator-add.py. -/
def publicUserIdTemplate : Text :=
  "\n<publicUserId>\n".toList ++
  "\t<publicUserId>sip:+22\x7bTEMPLATE\x7d![1-4]!@windtre.it</publicUserId>\n".toList ++
  "\t<originalPublicUserId>sip:+22\x7bTEMPLATE\x7d![1-4]!@windtre.it</originalPublicUserId>\n".toList ++
  "\t<barringIndication>false</barringIndication>\n".toList ++
  "\t<defaultIndication>false</defaultIndication>\n".toList ++
  "\t<serviceProfileName>4</serviceProfileName>\n".toList ++
  "\t<irsId>IRSID1</irsId>\n".toList ++
  "\t<displayNamePrivacy>false</displayNamePrivacy>\n".toList ++
  "\t<isChildIMPU>false</isChildIMPU>\n".toList ++
  "\t<publicIdType>wildcardedIMPU</publicIdType>\n".toList ++
  "</publicUserId>\n    ".toList

/-- Where a scan of the tags stands. -/
inductive Mode where
  | text
  | tag
  | opening (name : Text)
  | attributes (name : Text)
  | closing (name : Text)
  deriving DecidableEq

/-- The names of the open elements, innermost first, and the outermost elements closed so far. -/
structure Scan where
  stack : List Text := []
  mode : Mode := .text
  elements : Nat := 0
  deriving DecidableEq

def Scan.push (s : Scan) (name : Text) : Scan := { s with stack := name :: s.stack, mode := .text }

/-- The end of a closing tag, which must name the innermost open element. -/
def Scan.pop (s : Scan) (name : Text) : Option Scan :=
  match s.stack with
  | [] => none
  | top :: stack =>
    if top = name then some ⟨stack,.text,if stack.isEmpty then s.elements + 1 else s.elements⟩ else none

def scanChar (s : Scan) (c : Char) : Option Scan :=
  match s.mode with
  | .text => some (if c = '<' then { s with mode := .tag } else s)
  | .tag =>
    if c = '/' then some { s with mode := .closing [] }
    else if c = '<' ∨ c = '>' then none
    else some { s with mode := .opening [c] }
  | .opening name =>
    if c = '>' then some (s.push name)
    else if c = '<' then none
    else some { s with mode := if c = ' ' then .attributes name else .opening (name ++ [c]) }
  | .attributes name =>
    if c = '>' then some (s.push name)
    else if c = '<' then none
    else some s
  | .closing name =>
    if c = '>' then s.pop name
    else if c = '<' then none
    else some { s with mode := .closing (name ++ [c]) }

def scan (s : Scan) (text : Text) : Option Scan := text.foldlM scanChar s

/-- The scan of the pieces of a template, each of which must end outside of a tag. -/
def scanPieces (s : Scan) : List Text → Option Scan
  | [] => some s
  | piece :: pieces => (scan s piece).bind fun t => if t.mode = .text then scanPieces t pieces else none

theorem scan_append (s : Scan) (text rest : Text) : scan s (text ++ rest) = (scan s text).bind (scan · rest) :=
  List.foldlM_append

theorem scan_plain {s : Scan} (hs : s.mode = .text) {text : Text} (h : '<' ∉ text) : scan s text = some s := by
  induction text with
  | nil => rfl
  | cons c text ih =>
    rw [List.mem_cons,not_or] at h
    have hc : scanChar s c = some s := by
      rw [scanChar,hs]
      exact congrArg some (if_neg (Ne.symm h.1))
    exact (congrArg (Option.bind · (scan · text)) hc).trans (ih h.2)

/-- What replaces the placeholder does not move the scan either. -/
theorem scan_joinText {s t : Scan} {pieces : List Text} (hs : s.mode = .text)
    (h : scanPieces s pieces = some t) {new : Text} (hnew : '<' ∉ new) :
    scan s (joinText new pieces) = some t := by
  induction pieces generalizing s with
  | nil => exact h
  | cons piece pieces ih =>
    obtain ⟨u,hu,hrest⟩ := Option.bind_eq_some_iff.mp h
    rw [Option.ite_none_right_eq_some] at hrest
    obtain ⟨hmode,hrest⟩ := hrest
    cases pieces with
    | nil =>
      rw [joinText,hu]
      exact hrest
    | cons next pieces =>
      rw [joinText,List.append_assoc,scan_append,hu,Option.bind_some,scan_append,scan_plain hmode hnew]
      exact ih hmode hrest

/-- A scan that has already passed some elements. -/
def Scan.after (n : Nat) (s : Scan) : Scan := { s with elements := n + s.elements }

theorem scanChar_after (n : Nat) (s : Scan) (c : Char) :
    scanChar (s.after n) c = (scanChar s c).map (Scan.after n) := by
  obtain ⟨stack,mode,elements⟩ := s
  cases mode with
  | text =>
    simp only [scanChar,Scan.after]
    split <;> rfl
  | tag =>
    simp only [scanChar,Scan.after]
    split
    · rfl
    · split <;> rfl
  | opening name =>
    simp only [scanChar,Scan.after]
    split
    · rfl
    · split <;> rfl
  | attributes name =>
    simp only [scanChar,Scan.after]
    split
    · rfl
    · split <;> rfl
  | closing name =>
    simp only [scanChar,Scan.after,Scan.pop]
    split
    · cases stack with
      | nil => rfl
      | cons top stack =>
        dsimp only
        split
        · cases stack <;> rfl
        · rfl
    · split <;> rfl

theorem scan_after (n : Nat) (s : Scan) (text : Text) :
    scan (s.after n) text = (scan s text).map (Scan.after n) := by
  induction text generalizing s with
  | nil => rfl
  | cons c text ih =>
    change (scanChar (s.after n) c).bind (scan · text) = ((scanChar s c).bind (scan · text)).map (Scan.after n)
    rw [scanChar_after]
    cases scanChar s c with
    | none => rfl
    | some t => exact ih t

/-- Snippets of one element each make a file of so many elements. -/
theorem scan_flatMap {snippet : Nat → Text} (h : ∀ n, scan {} (snippet n) = some { elements := 1 })
    (count : Nat) : scan {} ((List.range count).flatMap snippet) = some { elements := count } := by
  induction count with
  | zero => rfl
  | succ count ih =>
    rw [List.range_succ,List.flatMap_append,List.flatMap_singleton,scan_append,ih,Option.bind_some]
    exact (scan_after count {} (snippet count)).trans (by rw [h]; rfl)

theorem mem_asciiLetters (choice : Nat → Fin 52) (length : Nat) {c : Char}
    (h : c ∈ generateRandomString choice length) : c ∈ asciiLetters := by
  obtain ⟨i,_,rfl⟩ := List.mem_map.mp h
  have hlt : (choice i).val < asciiLetters.length := (choice i).isLt
  rw [List.getD_eq_getElem?_getD,List.getElem?_eq_getElem hlt]
  exact List.getElem_mem hlt

theorem mem_joinText {new : Text} {pieces : List Text} {c : Char} (h : c ∈ joinText new pieces) :
    c ∈ new ∨ ∃ piece ∈ pieces, c ∈ piece := by
  induction pieces with
  | nil => cases h
  | cons piece pieces ih =>
    cases pieces with
    | nil => exact .inr ⟨piece,List.mem_cons_self,h⟩
    | cons next pieces =>
      rw [joinText,List.mem_append,List.mem_append] at h
      rcases h with (h | h) | h
      · exact .inr ⟨piece,List.mem_cons_self,h⟩
      · exact .inl h
      · exact (ih h).imp_right fun ⟨p,hp,hc⟩ => ⟨p,List.mem_cons_of_mem _ hp,hc⟩

/-- What the template has to be like: one element around its placeholders, and no other brace. -/
structure Sound (template : Text) : Prop where
  balanced : scanPieces {} (splitText placeholder 0 template) = some { elements := 1 }
  filled : ∀ piece ∈ splitText placeholder 0 template, '\x7b' ∉ piece

theorem Sound.file {template : Text} (h : Sound template) (choices : Choices) (count : Nat) :
    scan {} (saveXmlToFile template choices count) = some { elements := count } ∧
      '\x7b' ∉ saveXmlToFile template choices count := by
  constructor
  · refine scan_flatMap (fun n => ?_) count
    refine scan_joinText rfl h.balanced fun hmem => ?_
    exact absurd (mem_asciiLetters _ _ hmem) (by decide)
  · intro hmem
    obtain ⟨n,_,hn⟩ := List.mem_flatMap.mp hmem
    rcases mem_joinText hn with hletter | ⟨piece,hpiece,hc⟩
    · exact absurd (mem_asciiLetters _ _ hletter) (by decide)
    · exact h.filled piece hpiece hc

theorem modificationTemplate_sound : Sound modificationTemplate := ⟨by decide +kernel,by decide +kernel⟩

theorem publicUserIdTemplate_sound : Sound publicUserIdTemplate := ⟨by decide +kernel,by decide +kernel⟩

/-- Whatever is chosen at random and however many snippets are asked for, the files of both scripts
have balanced tags, one outermost element for each snippet, and no placeholder left. -/
theorem generated_files_balanced (choices : Choices) (count : Nat) :
    (scan {} (saveXmlToFile modificationTemplate choices count) = some { elements := count } ∧
      '\x7b' ∉ saveXmlToFile modificationTemplate choices count) ∧
    (scan {} (saveXmlToFile publicUserIdTemplate choices count) = some { elements := count } ∧
      '\x7b' ∉ saveXmlToFile publicUserIdTemplate choices count) :=
  ⟨modificationTemplate_sound.file choices count,publicUserIdTemplate_sound.file choices count⟩

end MyCpp.DataGenerator
