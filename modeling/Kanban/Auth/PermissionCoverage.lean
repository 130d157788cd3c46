import Kanban.Auth.Dispatch
import Kanban.Lib.Sections
import Kanban.Lib.Text
import Kanban.Services.Search

/-!
# The coverage check of the dispatch matrix

`permission-coverage.rs` reads the proto files line by line and compares the RPCs it finds with the
matrix.  A line that starts with `service ` opens a service and a lone `}` ends it, whatever the
brace belongs to.

## Main definitions

* `scanProtoMethods`, `run` — the check.
* `ProtoLine`, `ValidProto` — a proto file by its lines, with what starts on each of them.
* `Declares` — the RPCs of a file.
* `ReadAsDeclared` — each declaration is read off its line, in its service.
-/

namespace Kanban.Auth

open Text Sections
open Kanban.Services (isWhitespace)

/-! ## The check -/

/-- The name on a line that starts with `service `. -/
def readService (trimmed : List Char) : Option (List Char) :=
  (stripPrefix "service ".toList trimmed).map fun rest =>
    trim isWhitespace ((firstWord isWhitespace rest).rdropWhile (· = '{'))

/-- The name on a line that starts with `rpc `. -/
def readRpc (trimmed : List Char) : Option (List Char) :=
  (stripPrefix "rpc ".toList trimmed).map fun rest => trim isWhitespace (rest.takeWhile (· ≠ '('))

/-- The variables of the scanner. -/
structure ProtoScan where
  currentService : Option (List Char)
  methods : List String

/-- One line. -/
def ProtoScan.line (s : ProtoScan) (line : List Char) : ProtoScan :=
  let trimmed := trim isWhitespace line
  match readService trimmed with
  | some name => { s with currentService := some name }
  | none =>
      if trimmed = ['}'] then { s with currentService := none }
      else
        match s.currentService, readRpc trimmed with
        | some svc, some rpcName =>
            if rpcName = [] then s
            else { s with
              methods := s.methods ++ [methodPath (String.ofList svc) (String.ofList rpcName)] }
        | _, _ => s

/-- `str::lines`: an empty line at the end is none, and a line may end in a carriage return. -/
def protoLines (content : List Char) : List (List Char) :=
  let parts := content.splitOn '\n'
  parts.dropLast.map (fun line => if line.getLast? = some '\r' then line.dropLast else line) ++
    parts.getLast?.toList.filter (· ≠ [])

/-- An entry of the directory. -/
structure ProtoEntry where
  extension : Option String
  content : List Char

/-- `scan_proto_methods`. -/
def scanProtoMethods (dir : List ProtoEntry) : List String :=
  (dir.filter (·.extension = some "proto")).flatMap fun entry =>
    ((protoLines entry.content).foldl ProtoScan.line ⟨none, []⟩).methods

/-- `BYPASSED_METHODS`. -/
def bypassedMethods : List String :=
  [methodPath "PublicBoardService" "GetPublicBoard", methodPath "PublicBoardService" "ListPublicBoards"]

/-- `run`: the exit code of the check. -/
def run (dir : List ProtoEntry) : ℕ :=
  let expected := (scanProtoMethods dir).filter (· ∉ bypassedMethods)
  let actual := matrix.map DispatchEntry.method
  let missing := expected.filter (· ∉ actual)
  let extra := actual.filter (· ∉ expected)
  if missing = [] ∧ extra = [] then 0 else 1

/-! ## Proto files -/

/-- What starts on a line of a proto file. -/
inductive ProtoRole
  | other
  | service (name : List Char)
  | rpc (name : List Char)
  /-- The closing brace of a service. -/
  | closing
  deriving DecidableEq, Repr

/-- A line of a proto file. -/
structure ProtoLine where
  text : List Char
  role : ProtoRole
  deriving DecidableEq, Repr

/-- A service opens or ends. -/
def ProtoRole.mark : ProtoRole → Option (Option (List Char))
  | .service name => some (some name)
  | .closing => some none
  | _ => none

/-- An RPC is declared. -/
def ProtoRole.item : ProtoRole → Option (List Char)
  | .rpc name => some name
  | _ => none

/-- The file declares the RPC in the service. -/
def Declares (file : List ProtoLine) (svc rpcName : List Char) : Prop :=
  Collects (fun l => l.role.mark) (fun l => l.role.item) file svc rpcName

/-- The text of a file. -/
def protoContent (file : List ProtoLine) : List Char := ['\n'].intercalate (file.map ProtoLine.text)

def identChar (c : Char) : Bool := c.isAlphanum || c = '_'

/-- A name. -/
def Ident (name : List Char) : Prop := name ≠ [] ∧ ∀ c ∈ name, identChar c = true

/-- A line on which a statement with a keyword starts, after blanks.  The name follows after blanks, or a
comment comes first, or it stands on a later line. -/
def Starts (keyword name text : List Char) : Prop :=
  ∃ blanks rest, trim isWhitespace text = keyword ++ blanks ++ rest ∧
    (∀ c ∈ blanks, isWhitespace c = true) ∧
    (rest = [] ∨ rest.head? = some '/' ∨
      blanks ≠ [] ∧ ∃ tail, rest = name ++ tail ∧ ∀ c ∈ tail.head?, identChar c = false)

/-- The line is written as its role asks for. -/
def ProtoLine.Spelled (l : ProtoLine) : Prop :=
  match l.role with
  | .other => True
  | .service name => Ident name ∧ Starts "service".toList name l.text
  | .rpc name => Ident name ∧ Starts "rpc".toList name l.text
  | .closing => (trim isWhitespace l.text).head? = some '}'

/-- A valid file in which every service header, every declaration of an RPC and every closing brace starts
a line.  Nothing is asked of the other lines: they hold messages, options, comments and the rest of
what started above. -/
structure ValidProto (file : List ProtoLine) : Prop where
  noBreak : ∀ l ∈ file, '\n' ∉ l.text
  spelled : ∀ l ∈ file, l.Spelled
  proper : Proper (fun l : ProtoLine => l.role.mark) (fun l => l.role.item) file

/-! ## What the scanner reads -/

/-- A line opens or ends a service for the scanner. -/
def textMark (text : List Char) : Option (Option (List Char)) :=
  match readService (trim isWhitespace text) with
  | some name => some (some name)
  | none => if trim isWhitespace text = ['}'] then some none else none

/-- A line declares an RPC for the scanner. -/
def textItem (text : List Char) : Option (List Char) :=
  (readRpc (trim isWhitespace text)).filter (· ≠ [])

/-- The scanner reads every declaration off its line: the line starts with `rpc ` and the name up to the
parenthesis, and the nearest line above that starts with `service ` or is a lone `}` opens its
service.  A line that declares nothing and is read as a declaration names one of the file. -/
structure ReadAsDeclared (file : List ProtoLine) : Prop where
  reads : Reads (fun l => l.role.mark) (fun l => textMark l.text) (fun l => l.role.item)
    (fun l => textItem l.text) file
  strays : ∀ pre l post svc rpcName, file = pre ++ l :: post → l.role.item = none →
    nearest (fun l => textMark l.text) pre = some svc → textItem l.text = some rpcName →
      Declares file svc rpcName

theorem textItem_eq_some {text name : List Char} :
    textItem text = some name ↔ readRpc (trim isWhitespace text) = some name ∧ name ≠ [] := by
  rw [textItem, Option.filter_eq_some_iff, decide_eq_true_eq]

/-- A line that opens or ends a service declares nothing. -/
theorem textItem_of_mark {text : List Char} (h : textMark text ≠ none) : textItem text = none := by
  have hread : readRpc (trim isWhitespace text) = none := by
    cases hrpc : readRpc (trim isWhitespace text) with
    | none => rfl
    | some name =>
        obtain ⟨rest, hrest, -⟩ := Option.map_eq_some_iff.mp hrpc
        have htext := stripPrefix_eq_some.mp hrest
        exfalso
        apply h
        rw [textMark, htext]
        rfl
  rw [textItem, hread]
  rfl

/-- What a line adds to the methods. -/
def found (current item : Option (List Char)) : List String :=
  match current, item with
  | some svc, some rpcName => [methodPath (String.ofList svc) (String.ofList rpcName)]
  | _, _ => []

/-- **One line of the scan**, by what it is for the scanner. -/
theorem line_eq (s : ProtoScan) (text : List Char) : s.line text =
    ⟨(textMark text).elim s.currentService id, s.methods ++ found s.currentService (textItem text)⟩ := by
  cases hmark : textMark text with
  | some v =>
      rw [textItem_of_mark (by simp [hmark])]
      have hfound : found s.currentService none = [] := by
        cases s.currentService <;> rfl
      rw [hfound, List.append_nil]
      unfold textMark at hmark
      unfold ProtoScan.line
      split at hmark
      · rename_i name hname
        cases hmark
        simp only [hname]
        rfl
      · rename_i hname
        obtain ⟨hbrace, hv⟩ := Option.ite_none_right_eq_some.mp hmark
        cases hv
        simp only [hname, if_pos hbrace]
        rfl
  | none =>
      unfold textMark at hmark
      unfold ProtoScan.line
      split at hmark
      · cases hmark
      · rename_i hname
        have hbrace : ¬ trim isWhitespace text = ['}'] := fun h => by simp [h] at hmark
        simp only [hname, if_neg hbrace, Option.elim_none, textItem]
        obtain ⟨current, methods⟩ := s
        cases current with
        | none => simp [found]
        | some svc =>
            cases readRpc (trim isWhitespace text) with
            | none => simp [found]
            | some rpcName => by_cases hempty : rpcName = [] <;> simp [found, hempty, Option.filter]

/-- **What the scanner finds.** -/
theorem scan_spec (texts : List (List Char)) :
    (texts.foldl ProtoScan.line ⟨none, []⟩).currentService = nearest textMark texts ∧
      ∀ m, m ∈ (texts.foldl ProtoScan.line ⟨none, []⟩).methods ↔
        ∃ svc rpcName, Collects textMark textItem texts svc rpcName ∧
          m = methodPath (String.ofList svc) (String.ofList rpcName) := by
  induction texts using List.reverseRecOn with
  | nil => simp
  | append_singleton texts text ih =>
      obtain ⟨hcurrent, hmethods⟩ := ih
      rw [List.foldl_append, List.foldl_cons, List.foldl_nil, line_eq]
      refine ⟨by rw [hcurrent, nearest_concat], fun m => ?_⟩
      simp only [collects_concat, List.mem_append, hmethods, hcurrent]
      constructor
      · rintro (⟨svc, rpcName, hcollects, rfl⟩ | hm)
        · exact ⟨svc, rpcName, .inl hcollects, rfl⟩
        · unfold found at hm
          split at hm
          · rename_i svc rpcName hsvc hrpc
            exact ⟨svc, rpcName, .inr ⟨hsvc, hrpc⟩, List.mem_singleton.mp hm⟩
          · cases hm
      · rintro ⟨svc, rpcName, hcollects | ⟨hsvc, hrpc⟩, rfl⟩
        · exact .inl ⟨svc, rpcName, hcollects, rfl⟩
        · rw [hsvc, hrpc]
          exact .inr (List.mem_singleton_self _)

/-- A blank line does nothing. -/
theorem line_blank (s : ProtoScan) : s.line [] = s := by
  rw [line_eq]
  have hmark : textMark [] = none := by decide
  have hitem : textItem [] = none := by decide
  rw [hmark, hitem]
  cases hcurrent : s.currentService <;> simp [found, ← hcurrent]

/-- What ends a line does not matter. -/
theorem line_of_trim {s : ProtoScan} {text text' : List Char}
    (h : trim isWhitespace text = trim isWhitespace text') : s.line text = s.line text' := by
  rw [line_eq, line_eq, textMark, textMark, textItem, textItem, h]

/-- The scan of a text is the scan of what stands between the line breaks. -/
theorem foldl_protoLines (content : List Char) (s : ProtoScan) :
    (protoLines content).foldl ProtoScan.line s = (content.splitOn '\n').foldl ProtoScan.line s := by
  have hstrip : ∀ text : List Char,
      trim isWhitespace (if text.getLast? = some '\r' then text.dropLast else text) =
        trim isWhitespace text := by
    intro text
    split
    · rename_i hlast
      obtain ⟨pre, rfl⟩ := List.getLast?_eq_some_iff.mp hlast
      have hpadded : trim isWhitespace ([] ++ pre ++ ['\r']) = trim isWhitespace pre :=
        trim_padded nofun (by decide)
      rw [List.dropLast_concat]
      exact hpadded.symm
    · rfl
  have hinit : ∀ (parts : List (List Char)) (s : ProtoScan),
      (parts.map fun line => if line.getLast? = some '\r' then line.dropLast else line).foldl
        ProtoScan.line s = parts.foldl ProtoScan.line s := by
    intro parts
    induction parts with
    | nil => exact fun _ => rfl
    | cons text parts ih =>
        intro s
        rw [List.map_cons, List.foldl_cons, List.foldl_cons, ih, line_of_trim (hstrip text)]
  unfold protoLines
  dsimp only
  rw [List.foldl_append, hinit]
  cases hparts : (content.splitOn '\n').getLast? with
  | none =>
      rw [List.getLast?_eq_none_iff.mp hparts]
      rfl
  | some last =>
      obtain ⟨parts, hcontent⟩ := List.getLast?_eq_some_iff.mp hparts
      rw [hcontent, List.dropLast_concat, List.foldl_append, List.foldl_cons, List.foldl_nil]
      by_cases hlast : last = []
      · rw [hlast, line_blank]
        rfl
      · simp [hlast]

/-- The scan of a file is the scan of its lines. -/
theorem foldl_protoContent {file : List ProtoLine} (h : ∀ l ∈ file, '\n' ∉ l.text) (s : ProtoScan) :
    (protoLines (protoContent file)).foldl ProtoScan.line s =
      (file.map ProtoLine.text).foldl ProtoScan.line s := by
  rw [foldl_protoLines, protoContent]
  cases file with
  | nil => exact line_blank s
  | cons l file =>
      rw [List.splitOn_intercalate '\n' _ (by simp)]
      rintro text htext
      obtain ⟨l', hl', rfl⟩ := List.mem_map.mp htext
      exact h l' hl'

/-! ## How a name is read -/

theorem identChar_range {c : Char} (h : identChar c = true) : 48 ≤ c.toNat ∧ c.toNat ≤ 122 := by
  have hranges : identChar c = (decide ('A'.val ≤ c.val ∧ c.val ≤ 'Z'.val) ||
      decide ('a'.val ≤ c.val) && decide (c.val ≤ 'z'.val) ||
      decide ('0'.val ≤ c.val) && decide (c.val ≤ '9'.val) || decide (c = '_')) := rfl
  rw [hranges] at h
  simp only [Bool.or_eq_true, Bool.and_eq_true, decide_eq_true_eq, UInt32.le_iff_toNat_le] at h
  rcases h with ((⟨h, h'⟩ | ⟨h, h'⟩) | ⟨h, h'⟩) | rfl
  · exact ⟨le_trans (by decide) h, le_trans h' (by decide)⟩
  · exact ⟨le_trans (by decide) h, h'⟩
  · exact ⟨h, le_trans h' (by decide)⟩
  · decide

theorem not_isWhitespace_of_ident {c : Char} (h : identChar c = true) : isWhitespace c = false := by
  obtain ⟨hlow, hhigh⟩ := identChar_range h
  rw [isWhitespace, decide_eq_false_iff_not]
  simp only [List.mem_cons, List.not_mem_nil, or_false]
  omega

/-- A name and what follows it, where the reader drops characters at the end only. -/
theorem eq_of_ident_append {name tail : List Char} (htail : ∀ c ∈ tail.head?, identChar c = false)
    (h : Ident (name ++ tail)) : name ++ tail = name := by
  cases tail with
  | nil => exact List.append_nil _
  | cons c tail =>
      have hc := h.2 c (by simp)
      rw [htail c rfl] at hc
      cases hc

/-- The head of a text that is cut at its end. -/
theorem head_rdropWhile {p : Char → Bool} {tail : List Char} {c : Char}
    (h : c ∈ (tail.rdropWhile p).head?) : c ∈ tail.head? := by
  obtain ⟨rest, hrest⟩ := List.rdropWhile_prefix p tail
  rw [← hrest]
  exact List.mem_head?_append_of_mem_head? h

theorem head_takeWhile {p : Char → Bool} {tail : List Char} {c : Char}
    (h : c ∈ (tail.takeWhile p).head?) : c ∈ tail.head? := by
  obtain ⟨rest, hrest⟩ := List.takeWhile_prefix (l := tail) p
  rw [← hrest]
  exact List.mem_head?_append_of_mem_head? h

/-- What follows the keyword and one blank. -/
theorem Starts.split {keyword name text r : List Char} (h : Starts keyword name text)
    (hr : trim isWhitespace text = keyword ++ ' ' :: r) :
    ∃ blanks rest, r = blanks ++ rest ∧ (∀ c ∈ blanks, isWhitespace c = true) ∧
      (rest = [] ∨ (∃ t, rest = ['/'] ++ t) ∨
        ∃ tail, rest = name ++ tail ∧ ∀ c ∈ tail.head?, identChar c = false) := by
  obtain ⟨blanks, rest, htext, hblanks, hrest⟩ := h
  rw [hr, List.append_assoc] at htext
  have heq : ' ' :: r = blanks ++ rest := List.append_cancel_left htext
  cases blanks with
  | nil =>
      rw [List.nil_append] at heq
      rw [← heq] at hrest
      rcases hrest with h | h | ⟨h, -⟩
      · cases h
      · cases h
      · exact absurd rfl h
  | cons b blanks =>
      obtain ⟨-, rfl⟩ := List.cons_eq_cons.mp heq
      refine ⟨blanks, rest, rfl, fun c hc => hblanks c (List.mem_cons_of_mem _ hc), ?_⟩
      rcases hrest with h | h | ⟨-, h⟩
      · exact .inl h
      · cases rest with
        | nil => cases h
        | cons c rest =>
            obtain rfl := Option.some.inj h
            exact .inr (.inl ⟨rest, rfl⟩)
      · exact .inr (.inr h)

/-- A name that starts with a slash is none. -/
theorem not_ident_slash {t : List Char} : ¬ Ident (['/'] ++ t) := fun h =>
  absurd (h.2 '/' (by simp)) (by decide)

/-- **A header is read as its name**, if it is read as a name. -/
theorem readService_of_starts {name text x : List Char} (hname : Ident name)
    (hstarts : Starts "service".toList name text) (h : readService (trim isWhitespace text) = some x)
    (hx : Ident x) : x = name := by
  obtain ⟨r, hr, rfl⟩ := Option.map_eq_some_iff.mp h
  have hkeyword : "service ".toList = "service".toList ++ [' '] := by decide
  have htext := stripPrefix_eq_some.mp hr
  rw [hkeyword, List.append_assoc] at htext
  obtain ⟨blanks, rest, rfl, hblanks, hrest⟩ := hstarts.split htext
  have hname' : ∀ c ∈ name, isWhitespace c = false := fun c hc => not_isWhitespace_of_ident (hname.2 c hc)
  rw [firstWord, List.dropWhile_append_of_pos hblanks] at hx ⊢
  rcases hrest with rfl | ⟨t, rfl⟩ | ⟨tail, rfl, htail⟩
  · exact absurd rfl hx.1
  · rw [dropWhile_append_of_none (by decide) (by simp), List.takeWhile_append_of_pos (by decide),
      rdropWhile_append_of_none (by decide), trim_append_of_none (by decide) (by simp)] at hx
    exact absurd hx not_ident_slash
  · have hbrace : ∀ c ∈ name, decide (c = '{') = false := fun c hc => by
      obtain ⟨-, hhigh⟩ := identChar_range (hname.2 c hc)
      rw [decide_eq_false_iff_not]
      rintro rfl
      exact absurd hhigh (by decide)
    rw [dropWhile_append_of_none hname' hname.1, List.takeWhile_append_of_pos (by simpa using hname'),
      rdropWhile_append_of_none hbrace, trim_append_of_none hname' hname.1] at hx ⊢
    refine eq_of_ident_append (fun c hc => htail c ?_) hx
    exact head_takeWhile (head_rdropWhile (head_rdropWhile hc))

/-- **A declaration is read as its name**, if it is read as a name. -/
theorem readRpc_of_starts {name text x : List Char} (hname : Ident name)
    (hstarts : Starts "rpc".toList name text) (h : readRpc (trim isWhitespace text) = some x)
    (hx : Ident x) : x = name := by
  obtain ⟨r, hr, rfl⟩ := Option.map_eq_some_iff.mp h
  have hkeyword : "rpc ".toList = "rpc".toList ++ [' '] := by decide
  have htext := stripPrefix_eq_some.mp hr
  rw [hkeyword, List.append_assoc] at htext
  obtain ⟨blanks, rest, rfl, hblanks, hrest⟩ := hstarts.split htext
  have hname' : ∀ c ∈ name, isWhitespace c = false := fun c hc => not_isWhitespace_of_ident (hname.2 c hc)
  have hparen : ∀ c ∈ blanks, decide (c ≠ '(') = true := fun c hc => by
    rw [decide_eq_true_eq]
    rintro rfl
    exact absurd (hblanks _ hc) (by decide)
  have hblank : trim isWhitespace ((blanks ++ rest).takeWhile (· ≠ '(')) =
      trim isWhitespace (rest.takeWhile (· ≠ '(')) := by
    have hpadded : trim isWhitespace (blanks ++ rest.takeWhile (· ≠ '(') ++ []) =
        trim isWhitespace (rest.takeWhile (· ≠ '(')) := trim_padded hblanks nofun
    rw [List.takeWhile_append_of_pos hparen, ← hpadded, List.append_nil]
  rw [hblank] at hx ⊢
  rcases hrest with rfl | ⟨t, rfl⟩ | ⟨tail, rfl, htail⟩
  · exact absurd rfl hx.1
  · rw [List.takeWhile_append_of_pos (by decide), trim_append_of_none (by decide) (by simp)] at hx
    exact absurd hx not_ident_slash
  · have hparen' : ∀ c ∈ name, decide (c ≠ '(') = true := fun c hc => by
      obtain ⟨hlow, -⟩ := identChar_range (hname.2 c hc)
      rw [decide_eq_true_eq]
      rintro rfl
      exact absurd hlow (by decide)
    rw [List.takeWhile_append_of_pos hparen', trim_append_of_none hname' hname.1] at hx ⊢
    refine eq_of_ident_append (fun c hc => htail c ?_) hx
    exact head_takeWhile (head_rdropWhile hc)

/-- Only headers start with `service `, and only declarations of RPCs start with `rpc `. -/
def NoImitation (file : List ProtoLine) : Prop :=
  ∀ l ∈ file, ((readService (trim isWhitespace l.text)).isSome → ∃ name, l.role = .service name) ∧
    ((textItem l.text).isSome → ∃ name, l.role = .rpc name)

/-! ## When the scan is exact -/

section Exact

variable {file : List ProtoLine} {svc rpcName : List Char}

/-- The directory entry of a file. -/
def protoEntry (file : List ProtoLine) : ProtoEntry := ⟨some "proto", protoContent file⟩

/-- The scanner finds the RPCs that the file declares, and no others. -/
def ScansExactly (file : List ProtoLine) : Prop :=
  ∀ m, m ∈ scanProtoMethods [protoEntry file] ↔
    ∃ svc rpcName, Declares file svc rpcName ∧ m = methodPath (String.ofList svc) (String.ofList rpcName)

/-- What the scanner finds in a file. -/
def Finds (file : List ProtoLine) (svc rpcName : List Char) : Prop :=
  Collects (fun l : ProtoLine => textMark l.text) (fun l => textItem l.text) file svc rpcName

theorem mem_scan (h : ValidProto file) {m : String} :
    m ∈ ((protoLines (protoContent file)).foldl ProtoScan.line ⟨none, []⟩).methods ↔
      ∃ svc rpcName, Finds file svc rpcName ∧ m = methodPath (String.ofList svc) (String.ofList rpcName) := by
  rw [foldl_protoContent h.noBreak, (scan_spec _).2]
  simp only [collects_map, Finds]

/-- The names of a declaration. -/
theorem ident_of_declares (h : ValidProto file) (hdeclares : Declares file svc rpcName) :
    Ident svc ∧ Ident rpcName := by
  obtain ⟨pre, l, post, hfile, hpre, hitem⟩ := hdeclares
  obtain ⟨q, heading, mid, rfl, hheading, -⟩ := exists_of_nearest hpre
  have hl := h.spelled l (by simp [hfile])
  have hq := h.spelled heading (by simp [hfile])
  obtain ⟨text, role⟩ := l
  obtain ⟨text', role'⟩ := heading
  cases role <;> cases hitem
  cases role' <;> cases hheading
  exact ⟨hq.1, hl.1⟩

theorem not_mem_of_ident {name : List Char} (h : Ident name) : '/' ∉ name := fun hmem =>
  absurd (h.2 '/' hmem) (by decide)

theorem toList_append_four (a b c d : String) :
    (a ++ b ++ c ++ d).toList = a.toList ++ (b.toList ++ (c.toList ++ d.toList)) := by
  rw [String.toList_append, String.toList_append, String.toList_append, List.append_assoc,
    List.append_assoc]

/-- A path that is the path of a declaration names it. -/
theorem eq_of_methodPath {x y : List Char} (hsvc : '/' ∉ svc) (hrpc : '/' ∉ rpcName)
    (h : methodPath (String.ofList x) (String.ofList y) =
      methodPath (String.ofList svc) (String.ofList rpcName)) : x = svc ∧ y = rpcName := by
  have hlist := (toList_append_four _ _ _ _).symm.trans
    ((congrArg String.toList h).trans (toList_append_four _ _ _ _))
  have hcancel : x ++ '/' :: y = svc ++ '/' :: rpcName := by
    have hrest := List.append_cancel_left hlist
    simp only [String.toList_ofList] at hrest
    exact hrest
  rcases List.append_eq_append_iff.mp hcancel with ⟨c, rfl, hc⟩ | ⟨c, rfl, hc⟩
  · cases c with
    | nil =>
        rw [List.nil_append] at hc
        exact ⟨(List.append_nil _).symm, (List.cons_eq_cons.mp hc).2⟩
    | cons d c =>
        obtain ⟨rfl, -⟩ := List.cons_eq_cons.mp hc
        exact absurd (by simp) hsvc
  · cases c with
    | nil =>
        rw [List.nil_append] at hc
        exact ⟨List.append_nil _, (List.cons_eq_cons.mp hc).2.symm⟩
    | cons d c =>
        obtain ⟨rfl, rfl⟩ := List.cons_eq_cons.mp hc
        exact absurd (by simp) hrpc

/-- An exact scan, by names. -/
theorem scansExactly_iff (h : ValidProto file) :
    ScansExactly file ↔ ∀ svc rpcName, Finds file svc rpcName ↔ Declares file svc rpcName := by
  have hscan : ∀ m, m ∈ scanProtoMethods [protoEntry file] ↔
      ∃ svc rpcName, Finds file svc rpcName ∧
        m = methodPath (String.ofList svc) (String.ofList rpcName) := fun m => by
    rw [← mem_scan h]
    simp [scanProtoMethods, protoEntry]
  have hname : ∀ {x y svc rpcName}, Declares file svc rpcName →
      methodPath (String.ofList x) (String.ofList y) =
        methodPath (String.ofList svc) (String.ofList rpcName) → x = svc ∧ y = rpcName :=
    fun hdeclares => eq_of_methodPath (not_mem_of_ident (ident_of_declares h hdeclares).1)
      (not_mem_of_ident (ident_of_declares h hdeclares).2)
  constructor
  · intro hexact svc rpcName
    constructor
    · intro hfinds
      obtain ⟨svc', rpcName', hdeclares, hpath⟩ := (hexact _).mp ((hscan _).mpr ⟨svc, rpcName, hfinds, rfl⟩)
      obtain ⟨rfl, rfl⟩ := hname hdeclares hpath
      exact hdeclares
    · intro hdeclares
      obtain ⟨svc', rpcName', hfinds, hpath⟩ :=
        (hscan _).mp ((hexact _).mpr ⟨svc, rpcName, hdeclares, rfl⟩)
      obtain ⟨rfl, rfl⟩ := hname hdeclares hpath.symm
      exact hfinds
  · intro hsame m
    rw [hscan]
    simp only [hsame]

/-- Declarations that are read where they stand are found, and nothing else is. -/
theorem ReadAsDeclared.finds_iff (hread : ReadAsDeclared file) (h : ValidProto file) :
    Finds file svc rpcName ↔ Declares file svc rpcName := by
  constructor
  · rintro ⟨pre, l, post, hfile, hpre, hitem⟩
    cases hrole : l.role.item with
    | none => exact hread.strays pre l post svc rpcName hfile hrole hpre hitem
    | some name =>
        obtain ⟨svc', hsvc'⟩ := h.proper.inside pre l post name hfile hrole
        obtain ⟨hpre', hitem'⟩ := hread.reads pre l post svc' name hfile hsvc' hrole
        obtain rfl := Option.some.inj (hpre.symm.trans hpre')
        obtain rfl := Option.some.inj (hitem.symm.trans hitem')
        exact ⟨pre, l, post, hfile, hsvc', hrole⟩
  · rintro ⟨pre, l, post, hfile, hpre, hitem⟩
    obtain ⟨hpre', hitem'⟩ := hread.reads pre l post svc rpcName hfile hpre hitem
    exact ⟨pre, l, post, hfile, hpre', hitem'⟩

/-- Where only declarations look like declarations, an exact scan reads each of them. -/
theorem readAsDeclared_of_same (h : ValidProto file) (hno : NoImitation file)
    (hsame : ∀ svc rpcName, Finds file svc rpcName ↔ Declares file svc rpcName) : ReadAsDeclared file := by
  refine ⟨(collects_iff_reads h.proper ?_ ?_ ?_).mp hsame, ?_⟩
  · rintro l hl svc hmark ⟨rpcName, hdeclares⟩
    have hsvc := (ident_of_declares h hdeclares).1
    obtain ⟨text, role⟩ := l
    have hread : readService (trim isWhitespace text) = some svc := by
      dsimp only [textMark] at hmark
      split at hmark
      · rename_i name hname
        cases hmark
        exact hname
      · obtain ⟨-, hmark⟩ := Option.ite_none_right_eq_some.mp hmark
        cases hmark
    obtain ⟨name, rfl⟩ : ∃ name, role = .service name := (hno _ hl).1 (Option.isSome_of_eq_some hread)
    obtain ⟨hname, hstarts⟩ := h.spelled _ hl
    rw [readService_of_starts hname hstarts hread hsvc]
    rfl
  · rintro l hl rpcName hitem ⟨svc, hdeclares⟩
    have hrpc := (ident_of_declares h hdeclares).2
    obtain ⟨text, role⟩ := l
    obtain ⟨name, rfl⟩ : ∃ name, role = .rpc name := (hno _ hl).2 (Option.isSome_of_eq_some hitem)
    obtain ⟨hname, hstarts⟩ := h.spelled _ hl
    rw [readRpc_of_starts hname hstarts (textItem_eq_some.mp hitem).1 hrpc]
    rfl
  · intro l hl rpcName hitem
    obtain ⟨name, hrole⟩ := (hno l hl).2 (Option.isSome_of_eq_some hitem)
    exact ⟨name, by rw [hrole]; rfl⟩
  · intro pre l post svc rpcName hfile hrole _ hitem
    obtain ⟨name, hrole'⟩ := (hno l (by simp [hfile])).2 (Option.isSome_of_eq_some hitem)
    rw [hrole'] at hrole
    cases hrole

/-- **When the scan is exact.**  If every declaration is read off its line, in its service, and no other
line is read as a declaration of something else, the scan finds exactly the RPCs of the file, and
one that the matrix lacks makes the check fail.  Where only declarations look like declarations, the
scan is exact only then. -/
theorem scan_proto_methods_iff (h : ValidProto file) :
    (ReadAsDeclared file → ScansExactly file) ∧
      (NoImitation file → (ScansExactly file ↔ ReadAsDeclared file)) ∧
      (ReadAsDeclared file → ∀ dir svc rpcName, protoEntry file ∈ dir → Declares file svc rpcName →
        methodPath (String.ofList svc) (String.ofList rpcName) ∉ bypassedMethods →
        methodPath (String.ofList svc) (String.ofList rpcName) ∉ matrix.map DispatchEntry.method →
          run dir = 1) := by
  have hexact : ReadAsDeclared file → ScansExactly file := fun hread =>
    (scansExactly_iff h).mpr fun _ _ => hread.finds_iff h
  refine ⟨hexact, fun hno => ⟨fun hscan => ?_, hexact⟩,
    fun hread dir svc rpcName hdir hdeclares hbypassed hmatrix => ?_⟩
  · exact readAsDeclared_of_same h hno ((scansExactly_iff h).mp hscan)
  · have hfound : methodPath (String.ofList svc) (String.ofList rpcName) ∈ scanProtoMethods dir :=
      List.mem_flatMap.mpr ⟨protoEntry file, List.mem_filter.mpr ⟨hdir, rfl⟩,
        (mem_scan h).mpr ⟨svc, rpcName, (hread.finds_iff h).mpr hdeclares, rfl⟩⟩
    have hmissing : ((scanProtoMethods dir).filter (· ∉ bypassedMethods)).filter
        (· ∉ matrix.map DispatchEntry.method) ≠ [] := by
      refine List.ne_nil_of_mem (List.mem_filter.mpr ⟨List.mem_filter.mpr ⟨hfound, ?_⟩, ?_⟩)
      · exact decide_eq_true hbypassed
      · exact decide_eq_true hmatrix
    unfold run
    exact if_neg (not_and_of_not_left _ hmissing)

end Exact

/-- A line on which nothing starts that the check is about. -/
def otherLine (text : String) : ProtoLine := ⟨text.toList, .other⟩

/-- A service with two RPCs; the first has a body with an option. -/
def bodyFirst : List ProtoLine :=
  [otherLine "syntax = \"proto3\";", otherLine "package sunbeam.kanban.v1;", otherLine "message X \x7b",
    otherLine "\x7d", ⟨"service S \x7b".toList, .service ['S']⟩,
    ⟨"  rpc A(X) returns (X) \x7b".toList, .rpc ['A']⟩, otherLine "    option deprecated = true;",
    otherLine "  \x7d", ⟨"  rpc B(X) returns (X);".toList, .rpc ['B']⟩, ⟨"\x7d".toList, .closing⟩]

/-- The same service, with the RPC that has a body at its end. -/
def bodyLast : List ProtoLine :=
  [otherLine "syntax = \"proto3\";", otherLine "package sunbeam.kanban.v1;", otherLine "message X \x7b",
    otherLine "\x7d", ⟨"service S \x7b".toList, .service ['S']⟩,
    ⟨"  rpc B(X) returns (X);".toList, .rpc ['B']⟩, ⟨"  rpc A(X) returns (X) \x7b".toList, .rpc ['A']⟩,
    otherLine "    option deprecated = true;", otherLine "  \x7d", ⟨"\x7d".toList, .closing⟩]

theorem spelled_bodyFirst : ∀ l ∈ bodyFirst, l.Spelled := by
  have hservice : Starts "service".toList ['S'] "service S \x7b".toList :=
    ⟨[' '], "S \x7b".toList, by decide, by decide,
      .inr (.inr ⟨by simp, " \x7b".toList, by decide, by decide⟩)⟩
  have hfirst : Starts "rpc".toList ['A'] "  rpc A(X) returns (X) \x7b".toList :=
    ⟨[' '], "A(X) returns (X) \x7b".toList, by decide, by decide,
      .inr (.inr ⟨by simp, "(X) returns (X) \x7b".toList, by decide, by decide⟩)⟩
  have hsecond : Starts "rpc".toList ['B'] "  rpc B(X) returns (X);".toList :=
    ⟨[' '], "B(X) returns (X);".toList, by decide, by decide,
      .inr (.inr ⟨by simp, "(X) returns (X);".toList, by decide, by decide⟩)⟩
  have hclosing : (trim isWhitespace "\x7d".toList).head? = some '}' := by decide
  simp only [bodyFirst, List.forall_mem_cons]
  exact ⟨trivial, trivial, trivial, trivial, ⟨⟨by decide, by decide⟩, hservice⟩,
    ⟨⟨by decide, by decide⟩, hfirst⟩, trivial, trivial, ⟨⟨by decide, by decide⟩, hsecond⟩, hclosing,
    List.forall_mem_nil _⟩

theorem valid_bodyFirst : ValidProto bodyFirst where
  noBreak := by decide
  spelled := spelled_bodyFirst
  proper := proper_of_places (by decide) (by decide) (by decide)

theorem valid_bodyLast : ValidProto bodyLast where
  noBreak := by decide
  spelled := by
    have hlines : ∀ l ∈ bodyLast, l ∈ bodyFirst := by decide
    exact fun l hl => spelled_bodyFirst l (hlines l hl)
  proper := proper_of_places (by decide) (by decide) (by decide)

/-- The brace that ends the body comes after both declarations. -/
theorem readAsDeclared_bodyLast : ReadAsDeclared bodyLast where
  reads := reads_of_places (by decide)
  strays := by
    have hsilent : ∀ s ∈ places bodyLast, s.2.role.item = none → textItem s.2.text = none := by decide
    intro pre l post svc rpcName hfile hrole _ hitem
    rw [hsilent (pre, l) (mem_places.mpr ⟨post, hfile⟩) hrole] at hitem
    cases hitem

theorem scan_proto_methods_iff_bodyLast :
    ScansExactly bodyLast ∧ Declares bodyLast ['S'] ['B'] ∧ run [protoEntry bodyLast] = 1 := by
  obtain ⟨hexact, -, hrun⟩ := scan_proto_methods_iff valid_bodyLast
  have hdeclares : Declares bodyLast ['S'] ['B'] := ⟨bodyLast.take 5, _, _, rfl, by decide, rfl⟩
  refine ⟨hexact readAsDeclared_bodyLast, hdeclares, ?_⟩
  exact hrun readAsDeclared_bodyLast _ _ _ (List.mem_singleton_self _) hdeclares (by decide) (by decide)

/-- The brace that ends the body of the first RPC ends the service for the scanner, which does not find the
second. -/
theorem scan_misses_rpc : ∃ file, ValidProto file ∧ ¬ ScansExactly file := by
  refine ⟨bodyFirst, valid_bodyFirst, fun hexact => ?_⟩
  have hscan : scanProtoMethods [protoEntry bodyFirst] = [methodPath "S" "A"] := by decide
  have hdeclares : Declares bodyFirst ['S'] ['B'] := ⟨bodyFirst.take 8, _, _, rfl, by decide, rfl⟩
  have hfound := (hexact (methodPath "S" "B")).mpr ⟨['S'], ['B'], hdeclares, rfl⟩
  rw [hscan] at hfound
  exact absurd hfound (by decide)

end Kanban.Auth
