import Cluon.CSV.ToCSVVisitor
import Cluon.JSON.Base64
import Cluon.Message.DataStructures
import Cluon.Specification.ReadingBack

/-!
# Rows of values

A visitor that has visited messages of one type since it was cleared has written one line for the
header and one for each message (`csv_run`). The cells of a line are found where it is split at the
delimiter. Characters are written as they are, strings between quotation marks, and labels with
dots. So a cell can contain the delimiter or the end of the line, and the rows are aligned with the
header if and only if none does (`alignedRows_iff`).
-/

set_option autoImplicit false

namespace Cluon

open Library JSON

namespace ToCSVVisitor

/-! ## Runs -/

/-- What is done with a visitor. -/
inductive Operation (T : MessageType) where
  | accept (m : T.Values)
  | clear

section Run

variable (F : FloatFormat) {T : MessageType}

/-- The visitor after an operation. -/
def perform (e : ToCSVVisitor) : Operation T → ToCSVVisitor
  | .accept m => accept F T m e
  | .clear => e.clear

/-- The visitor after several operations. -/
def run (ops : List (Operation T)) (e : ToCSVVisitor) : ToCSVVisitor := ops.foldl (perform F) e

/-- The messages that have been visited since the last call of `clear`. -/
def sinceClear (ops : List (Operation T)) : List T.Values :=
  ops.foldl (fun ms op =>
    match op with
    | .accept m => ms ++ [m]
    | .clear => []) []

/-- The line of the header. -/
def headerLine (delimiter : Byte) (mask : KeyValueMap (BitVec 32) Bool) (T : MessageType) : Bytes :=
  terminated delimiter (labels mask [] T.fields)

/-- The line of a message. -/
def row (delimiter : Byte) (mask : KeyValueMap (BitVec 32) Bool) (T : MessageType) (m : T.Values) :
    Bytes :=
  terminated delimiter (texts F mask T.fields m)

/-- The lines after the given messages have been visited. -/
def lines (delimiter : Byte) (mask : KeyValueMap (BitVec 32) Bool) (ms : List T.Values) :
    List Bytes :=
  if ms = [] then [] else headerLine delimiter mask T :: ms.map (row F delimiter mask T)

/-- What a visitor has written. -/
structure Written (delimiter : Byte) (mask : KeyValueMap (BitVec 32) Bool) (ms : List T.Values)
    (e : ToCSVVisitor) : Prop where
  sameMask : e.mask = mask
  noPrefix : e.columnPrefix = []
  sameDelimiter : e.delimiter = delimiter
  withHeader : e.withHeader = true
  outermost : e.isNested = false
  fillHeader : e.fillHeader = decide (ms = [])
  header : e.bufferHeader = if ms = [] then [] else headerLine delimiter mask T ++ [newline]
  values : e.bufferValues = terminated newline (ms.map (row F delimiter mask T))

variable {F} {delimiter : Byte} {mask : KeyValueMap (BitVec 32) Bool} {ms : List T.Values}
  {e : ToCSVVisitor}

/-- **Step.** -/
theorem Written.accept (h : Written F delimiter mask ms e) (m : T.Values) :
    Written F delimiter mask (ms ++ [m]) (accept F T m e) := by
  rw [accept_eq F T m h.outermost]
  have some : ms ++ [m] ≠ [] := List.append_ne_nil_of_right_ne_nil ms (List.cons_ne_nil m [])
  refine ⟨h.sameMask, h.noPrefix, h.sameDelimiter, h.withHeader, h.outermost, ?_, ?_, ?_⟩
  · exact (decide_eq_false some).symm
  · change (if e.fillHeader then e.bufferHeader ++ (terminated e.delimiter
      (labels e.mask e.columnPrefix T.fields) ++ [newline]) else e.bufferHeader) = _
    rw [h.fillHeader, h.header, h.sameDelimiter, h.sameMask, h.noPrefix, if_neg some]
    by_cases first : ms = []
    · rw [if_pos first, if_pos (decide_eq_true first)]
      rfl
    · rw [if_neg first, if_neg (by simpa using first)]
  · change e.bufferValues ++ (terminated e.delimiter (texts F e.mask T.fields m) ++ [newline]) = _
    rw [h.values, h.sameDelimiter, h.sameMask, List.map_append, terminated_append, List.map_singleton,
      terminated_singleton]
    rfl

theorem Written.clear (h : Written F delimiter mask ms e) :
    Written F delimiter mask ([] : List T.Values) e.clear :=
  ⟨h.sameMask, h.noPrefix, h.sameDelimiter, h.withHeader, h.outermost, rfl, rfl, rfl⟩

variable (F delimiter mask) in
/-- **Run.** What has been written are the lines of the messages since the last `clear`. -/
theorem written_run (ops : List (Operation T)) :
    Written F delimiter mask (sinceClear ops) (run F ops (init delimiter true mask)) := by
  induction ops using List.reverseRecOn with
  | nil => exact ⟨rfl, rfl, rfl, rfl, rfl, rfl, rfl, rfl⟩
  | append_singleton ops op ih =>
      rw [run, List.foldl_append, sinceClear, List.foldl_append]
      cases op with
      | accept m => exact ih.accept m
      | clear => exact ih.clear

variable (F delimiter mask) in
theorem csv_run (ops : List (Operation T)) :
    (run F ops (init delimiter true mask)).csv =
      terminated newline (lines F delimiter mask (sinceClear ops)) := by
  have written := written_run F delimiter mask ops
  rw [csv, written.withHeader, if_pos rfl, written.header, written.values, lines]
  by_cases none : sinceClear ops = []
  · rw [if_pos none, if_pos none, none]
    rfl
  · rw [if_neg none, if_neg none, terminated_cons, List.append_assoc]
    rfl

end Run

end ToCSVVisitor

/-! ## Rows -/

open ToCSVVisitor

/-- If no message has been visited since the last call of `clear`, there is no text. Otherwise it has
a line for the header and one for each message, the header has a column for each field that is not
masked, and the cells of the other lines are the values of these fields. Behind the last delimiter
of a line, and behind the last line, there is nothing. -/
structure AlignedRows (F : FloatFormat) (delimiter : Byte) (mask : KeyValueMap (BitVec 32) Bool)
    {T : MessageType} (ops : List (Operation T)) : Prop where
  empty : sinceClear ops = [] → (run F ops (init delimiter true mask)).csv = []
  lines : sinceClear ops ≠ [] → ∃ rows : List Bytes,
    (run F ops (init delimiter true mask)).csv.splitOn newline =
        headerLine delimiter mask T :: rows ++ [[]] ∧
      ((headerLine delimiter mask T).splitOn delimiter).length = (T.fields.paths mask).length + 1 ∧
      rows.map (List.splitOn delimiter) =
        (sinceClear ops).map fun m => texts F mask T.fields m ++ [[]]

/-- A delimiter as it is to be chosen for messages of a type. -/
structure IsDelimiter (delimiter : Byte) (T : MessageType) : Prop where
  names : T.fields.All fun field => delimiter ∉ field.name
  numbers : ∀ n : Int, delimiter ∉ decimalInt n
  base64 : ∀ s, delimiter ∉ encodeBase64 s

/-- The text of a value does not contain a character. That of a character is the character itself,
and that of a string is between quotation marks. -/
def Cell.Excludes (c : Byte) : Cell → Prop
  | ⟨.char, v⟩ => v ≠ c
  | ⟨.bytes, _⟩ | ⟨.string, _⟩ => c ≠ quote
  | _ => True

/-- No label and no value contains the delimiter or the end of a line. -/
structure SeparableRows (delimiter : Byte) (mask : KeyValueMap (BitVec 32) Bool) (T : MessageType)
    (ms : List T.Values) : Prop where
  noNewline : T.fields.paths mask ≠ [] → delimiter ≠ newline
  noDot : delimiter = 0x2E → ∀ path ∈ T.fields.paths mask, ∃ name, path = [name]
  cells : ∀ m ∈ ms, ∀ v ∈ T.fields.cells mask m, v.Excludes delimiter ∧ v.Excludes newline

/-! ## Characters of cells -/

theorem notMem_decimalInt {c : Byte} (noDigit : ¬ isDigit c) (noMinus : c ≠ 0x2D) (n : Int) :
    c ∉ decimalInt n := by
  have noDecimal (k : Nat) : c ∉ decimal k := fun member => noDigit (all_isDigit_decimal k c member)
  rw [decimalInt]
  split
  · exact mt List.mem_cons.mp (not_or.mpr ⟨noMinus, noDecimal _⟩)
  · exact noDecimal _

theorem notMem_encodeBase64 {c : Byte} (other : isBase64 c = false) (s : Bytes) :
    c ∉ encodeBase64 s := by
  intro member
  rw [all_isBase64 s c member] at other
  cases other

/-- A character that is in the text of no number and in no base64 text. -/
theorem notMem_valueText_iff {F : FloatFormat} {c : Byte} (numbers : ∀ n : Int, c ∉ decimalInt n)
    (base64 : ∀ s, c ∉ encodeBase64 s) (v : Cell) (noFloat : v.type ≠ .float ∧ v.type ≠ .double) :
    c ∉ valueText F v.type v.value ↔ v.Excludes c := by
  have noNatural (k : Nat) : c ∉ decimal k := by
    rw [← decimalInt_natCast]
    exact numbers k
  have quoted (s : Bytes) : c ∉ quote :: encodeBase64 s ++ [quote] ↔ c ≠ quote := by
    simp [base64 s]
  obtain ⟨t, v⟩ := v
  cases t with
  | bool =>
      refine iff_of_true ?_ trivial
      have zero : c ∉ asciiBytes "0" := numbers 0
      have one : c ∉ asciiBytes "1" := numbers 1
      change c ∉ if v then asciiBytes "1" else asciiBytes "0"
      split
      · exact one
      · exact zero
  | char => exact not_congr (List.mem_singleton.trans eq_comm)
  | float => exact absurd rfl noFloat.1
  | double => exact absurd rfl noFloat.2
  | bytes | string => exact quoted v
  | uint8 | uint16 | uint32 | uint64 => exact iff_of_true (noNatural _) trivial
  | int8 | int16 | int32 | int64 => exact iff_of_true (numbers _) trivial

theorem Fields.forall_of_mem_cells {P : ScalarType → Prop} {mask : KeyValueMap (BitVec 32) Bool}
    {fs : Fields} : fs.AllTypes P → ∀ m : fs.Values, ∀ v ∈ fs.cells mask m, P v.type := by
  induction fs generalizing mask with
  | nil => exact fun _ _ => nofun
  | scalar field t rest ih =>
      rintro ⟨here, others⟩ m v member
      rcases List.mem_append.mp member with first | later
      · split at first
        · rw [List.mem_singleton.mp first]
          exact here
        · cases first
      · exact ih others m.2 v later
  | nested field info inner rest ihInner ih =>
      rintro ⟨inside, others⟩ m v member
      rcases List.mem_append.mp member with first | later
      · split at first
        · exact ihInner inside m.1 v first
        · cases first
      · exact ih others m.2 v later

/-! ## Characters of labels -/

namespace ToCSVVisitor

/-- A label has the characters of names, and dots. -/
theorem mem_pathLabel {c : Byte} {path : List Bytes} {columnPrefix : Bytes} :
    c ∈ pathLabel columnPrefix path → c = 0x2E ∨ ∃ name ∈ columnPrefix :: path, c ∈ name := by
  induction path generalizing columnPrefix with
  | nil => exact fun member => .inr ⟨columnPrefix, List.mem_cons_self, member⟩
  | cons name rest ih =>
      intro member
      cases rest with
      | nil =>
          rw [pathLabel, label, List.mem_append, List.mem_append] at member
          rcases member with (inPrefix | dot) | inName
          · exact .inr ⟨columnPrefix, List.mem_cons_self, inPrefix⟩
          · split at dot
            · exact .inl (List.mem_singleton.mp dot)
            · cases dot
          · exact .inr ⟨name, List.mem_cons_of_mem _ List.mem_cons_self, inName⟩
      | cons child rest =>
          rw [pathLabel_cons (List.cons_ne_nil child rest)] at member
          rcases ih member with dot | ⟨n, inPath, inName⟩
          · exact .inl dot
          · exact .inr ⟨n, List.mem_cons_of_mem _ inPath, inName⟩

theorem dot_mem_pathLabel {path : List Bytes} {columnPrefix : Bytes} (some : path ≠ [])
    (named : ∀ name ∈ columnPrefix :: path, name ≠ []) : 0x2E ∈ pathLabel columnPrefix path := by
  induction path generalizing columnPrefix with
  | nil => exact absurd rfl some
  | cons name rest ih =>
      obtain ⟨here, named⟩ := List.forall_mem_cons.mp named
      cases rest with
      | nil =>
          rw [pathLabel, label, if_pos here]
          exact List.mem_append_left _ (List.mem_append_right _ List.mem_cons_self)
      | cons child rest =>
          rw [pathLabel_cons (List.cons_ne_nil child rest)]
          exact ih (List.cons_ne_nil child rest) named

/-- **A label contains the delimiter** if this is a dot and the path has several names. -/
theorem notMem_pathLabel_iff {c : Byte} {path : List Bytes} (some : path ≠ [])
    (named : ∀ name ∈ path, name ≠ []) (others : ∀ name ∈ path, c ∉ name) :
    c ∉ pathLabel [] path ↔ (c = 0x2E → ∃ name, path = [name]) := by
  match path with
  | [] => exact absurd rfl some
  | [name] =>
      exact iff_of_true (others name List.mem_cons_self) fun _ => ⟨name, rfl⟩
  | parent :: child :: rest =>
      rw [pathLabel_cons (List.cons_ne_nil child rest)]
      constructor
      · rintro notMem rfl
        exact absurd (dot_mem_pathLabel (List.cons_ne_nil child rest) named) notMem
      · intro single member
        rcases mem_pathLabel member with rfl | ⟨name, inPath, inName⟩
        · obtain ⟨name, ⟨⟩⟩ := single rfl
        · exact others name inPath inName

end ToCSVVisitor

/-! ## Aligned rows -/

section

variable {F : FloatFormat} {delimiter : Byte} {mask : KeyValueMap (BitVec 32) Bool}
  {T : MessageType}

/-- No line contains the end of a line, and no cell the delimiter. -/
theorem alignedRows_iff_notMem {ops : List (Operation T)} :
    AlignedRows F delimiter mask ops ↔ sinceClear ops = [] ∨
      (∀ line ∈ ToCSVVisitor.lines F delimiter mask (sinceClear ops), newline ∉ line) ∧
        (∀ l ∈ labels mask [] T.fields, delimiter ∉ l) ∧
        ∀ m ∈ sinceClear ops, ∀ t ∈ texts F mask T.fields m, delimiter ∉ t := by
  have length : (labels mask [] T.fields).length = (T.fields.paths mask).length :=
    List.length_map ..
  by_cases none : sinceClear ops = []
  · refine iff_of_true ⟨fun _ => ?_, fun some => absurd none some⟩ (.inl none)
    rw [csv_run, none]
    rfl
  · constructor
    · intro h
      obtain ⟨rows, split, header, cells⟩ := h.lines none
      have isHeader : ToCSVVisitor.lines F delimiter mask (sinceClear ops) =
          headerLine delimiter mask T :: (sinceClear ops).map (row F delimiter mask T) :=
        if_neg none
      have count : rows.length = (sinceClear ops).length := by
        simpa using congrArg List.length cells
      rw [csv_run] at split
      have noNewline := length_splitOn_terminated_eq_iff.mp (show _ = _ from by
        rw [split, isHeader]
        simp [count])
      rw [splitOn_terminated_eq_iff.mpr noNewline, isHeader] at split
      have isRows : rows = (sinceClear ops).map (row F delimiter mask T) :=
        (List.cons.inj (List.append_cancel_right split)).2.symm
      rw [← length] at header
      refine .inr ⟨noNewline, length_splitOn_terminated_eq_iff.mp header, ?_⟩
      rw [isRows, List.map_map, List.map_inj_left] at cells
      exact fun m member => splitOn_terminated_eq_iff.mp (cells m member)
    · rintro (none' | ⟨noNewline, inLabels, inTexts⟩)
      · exact absurd none' none
      · refine ⟨fun none' => absurd none' none, fun _ =>
          ⟨(sinceClear ops).map (row F delimiter mask T), ?_, ?_, ?_⟩⟩
        · rw [csv_run, splitOn_terminated_eq_iff.mpr noNewline, ToCSVVisitor.lines, if_neg none]
        · rw [← length]
          exact length_splitOn_terminated_eq_iff.mpr inLabels
        · rw [List.map_map]
          exact List.map_congr_left fun m member =>
            splitOn_terminated_eq_iff.mpr (inTexts m member)

/-- A line does not contain its end if its cells do not, and the delimiter is another character. -/
theorem newline_notMem_terminated {items : List Bytes} :
    newline ∉ terminated delimiter items ↔
      (∀ item ∈ items, newline ∉ item) ∧ (items ≠ [] → delimiter ≠ newline) := by
  rw [mem_terminated, not_or, not_and']
  refine and_congr (by simp) (imp_congr_right fun _ => ?_)
  exact not_congr eq_comm

variable (names : T.fields.All fun field => MessageParser.IsName field.name)
include names

/-- Neither the end of a line is in a label, nor is a label made of empty names. -/
theorem names_of_paths {path : List Bytes} (member : path ∈ T.fields.paths mask) :
    ∀ name ∈ path, name ≠ [] ∧ newline ∉ name := by
  intro name inPath
  have isName := Fields.forall_of_mem_paths names path member name inPath
  refine ⟨?_, fun inName => ?_⟩
  · obtain ⟨c, s, rfl, -⟩ := isName
    exact List.cons_ne_nil c s
  · cases isName.all newline inName

theorem newline_notMem_labels : ∀ l ∈ labels mask [] T.fields, newline ∉ l := by
  intro l member
  obtain ⟨path, inPaths, rfl⟩ := List.mem_map.mp member
  have inNames := names_of_paths names inPaths
  exact (notMem_pathLabel_iff (Fields.paths_ne_nil path inPaths) (fun n h => (inNames n h).1)
    fun n h => (inNames n h).2).mpr nofun

/-- **Rows are aligned with the header** if and only if nothing has been visited since the last call
of `clear`, or no cell contains the delimiter or the end of a line. -/
theorem alignedRows_iff
    (noFloats : T.fields.AllTypes fun t => t ≠ .float ∧ t ≠ .double)
    (isDelimiter : IsDelimiter delimiter T) (ops : List (Operation T)) :
    AlignedRows F delimiter mask ops ↔
      sinceClear ops = [] ∨ SeparableRows delimiter mask T (sinceClear ops) := by
  rw [alignedRows_iff_notMem]
  by_cases none : sinceClear ops = []
  · exact iff_of_true (.inl none) (.inl none)
  have isLines : ToCSVVisitor.lines F delimiter mask (sinceClear ops) =
      headerLine delimiter mask T :: (sinceClear ops).map (row F delimiter mask T) := if_neg none
  have inLabels : (∀ l ∈ labels mask [] T.fields, delimiter ∉ l) ↔
      (delimiter = 0x2E → ∀ path ∈ T.fields.paths mask, ∃ name, path = [name]) := by
    have each (path : List Bytes) (member : path ∈ T.fields.paths mask) :=
      notMem_pathLabel_iff (Fields.paths_ne_nil path member)
        (fun n h => (names_of_paths names member n h).1)
        (Fields.forall_of_mem_paths isDelimiter.names path member)
    rw [labels, List.forall_mem_map]
    exact ⟨fun h dot path member => (each path member).mp (h path member) dot,
      fun h path member => (each path member).mpr fun dot => h dot path member⟩
  have inTexts (c : Byte) (numbers : ∀ n : Int, c ∉ decimalInt n)
      (base64 : ∀ s, c ∉ encodeBase64 s) (m : T.Values) :
      (∀ t ∈ texts F mask T.fields m, c ∉ t) ↔ ∀ v ∈ T.fields.cells mask m, v.Excludes c := by
    rw [texts, List.forall_mem_map]
    exact forall₂_congr fun v member =>
      notMem_valueText_iff numbers base64 v (Fields.forall_of_mem_cells noFloats m v member)
  have newlineInTexts (m : T.Values) := inTexts newline
    (notMem_decimalInt (by decide) (by decide)) (notMem_encodeBase64 (by decide)) m
  have delimiterInTexts (m : T.Values) := inTexts delimiter isDelimiter.numbers isDelimiter.base64 m
  have columns (m : T.Values) : texts F mask T.fields m ≠ [] ↔ T.fields.paths mask ≠ [] := by
    rw [← List.length_pos_iff, ← List.length_pos_iff, texts, List.length_map, Fields.length_cells]
  have labelled : labels mask [] T.fields ≠ [] ↔ T.fields.paths mask ≠ [] :=
    not_congr List.map_eq_nil_iff
  rw [isLines, List.forall_mem_cons, List.forall_mem_map, headerLine, newline_notMem_terminated,
    inLabels, labelled]
  simp only [row, newline_notMem_terminated, newlineInTexts, delimiterInTexts, columns]
  constructor
  · rintro (none' | ⟨⟨⟨-, noNewline⟩, ends⟩, noDot, cells⟩)
    · exact absurd none' none
    · exact .inr ⟨noNewline, noDot, fun m member v inCells =>
        ⟨cells m member v inCells, (ends m member).1 v inCells⟩⟩
  · rintro (none' | h)
    · exact absurd none' none
    · exact .inr ⟨⟨⟨newline_notMem_labels names, h.noNewline⟩, fun m member =>
        ⟨fun v inCells => (h.cells m member v inCells).2, h.noNewline⟩⟩, h.noDot,
        fun m member v inCells => (h.cells m member v inCells).1⟩

end

/-- A semicolon is in no number and in no base64 text. -/
theorem isDelimiter_semicolon {T : MessageType}
    (names : T.fields.All fun field => 0x3B ∉ field.name) : IsDelimiter 0x3B T :=
  ⟨names, notMem_decimalInt (by decide) (by decide), notMem_encodeBase64 (by decide)⟩

/-- Two time stamps after a call of `clear`. -/
theorem alignedRows_timeStamp :
    AlignedRows (T := TimeStamp) ⟨fun _ => [], fun _ => [], fun _ => 0, fun _ => 0, fun _ _ => 0⟩ 0x3B []
      [.accept (TimeStamp.of 1 2), .clear, .accept (TimeStamp.of 3 4),
        .accept (TimeStamp.of 5 6)] := by
  have names : TimeStamp.fields.All fun field => MessageParser.IsName field.name :=
    ⟨⟨_, _, rfl, by decide, by decide⟩, ⟨_, _, rfl, by decide, by decide⟩, trivial⟩
  have semicolons : TimeStamp.fields.All fun field => 0x3B ∉ field.name :=
    ⟨by decide, by decide, trivial⟩
  refine (alignedRows_iff names ⟨by decide, by decide, trivial⟩
    (isDelimiter_semicolon semicolons) _).mpr (.inr ⟨fun _ => by decide, nofun, ?_⟩)
  intro m _ v member
  have integers : TimeStamp.fields.AllTypes fun t => t = .int32 := ⟨rfl, rfl, trivial⟩
  have integer := Fields.forall_of_mem_cells integers m v member
  obtain ⟨t, v⟩ := v
  obtain rfl : t = .int32 := integer
  exact ⟨trivial, trivial⟩

/-- A message with a character. -/
def withCharacter : MessageType where
  info := ⟨1, asciiBytes "Key", asciiBytes "Key"⟩
  fields := .scalar (.declared "char" "key" 1) .char .nil

/-- **A character that is the delimiter** is taken for the end of its cell. -/
theorem not_alignedRows :
    ¬ ∀ (F : FloatFormat) (delimiter : Byte) (mask : KeyValueMap (BitVec 32) Bool) (T : MessageType)
      (ops : List (Operation T)), (T.fields.All fun field => MessageParser.IsName field.name) →
      (T.fields.AllTypes fun t => t ≠ .float ∧ t ≠ .double) → IsDelimiter delimiter T →
      AlignedRows F delimiter mask ops := by
  intro h
  have isDelimiter : IsDelimiter 0x3B withCharacter := isDelimiter_semicolon ⟨by decide, trivial⟩
  have aligned := h ⟨fun _ => [], fun _ => [], fun _ => 0, fun _ => 0, fun _ _ => 0⟩ 0x3B [] withCharacter
    [.accept (0x3B, ())] ⟨⟨_, _, rfl, by decide, by decide⟩, trivial⟩ ⟨by decide, trivial⟩
    isDelimiter
  have notMem := (alignedRows_iff_notMem.mp aligned).resolve_left (List.cons_ne_nil _ _)
  exact notMem.2.2 (0x3B, ()) List.mem_cons_self [0x3B] List.mem_cons_self List.mem_cons_self

end Cluon
