import Cluon.Converter.BothWays
import Cluon.CSV.Rows
import Cluon.Recording.Cursor
import Cluon.Tools.Filter

/-!
# The tool `cluon-rec2csv`

`cluon-rec2csv` replays a recording, and writes the messages of a specification into files: one for
each data type and sender stamp, with a header and one line for each envelope. The lines are kept in
memory. As soon as there are more than ten megabytes for a file, everything is written and
forgotten; the first time a file is written it is truncated, and later something is appended to it.

What a file will contain are the lines that have been written and those that are kept. Writing does
not change it (`Consistent.content_fileWriter`), as long as different keys have different files.
-/

set_option autoImplicit false

namespace Cluon

open Library InputStream JSON ToCSVVisitor

/-- The maps of the tool, and the contents of the files. -/
structure Rec2CSV where
  mapOfFilenames : KeyValueMap Bytes Bytes
  mapOfEntries : KeyValueMap Bytes Bytes
  mapOfEntriesSizes : KeyValueMap Bytes Nat
  mapOfFilenamesThatHaveBeenReset : KeyValueMap Bytes Bool
  files : Bytes → Option Bytes

namespace Rec2CSV

/-- With empty maps. -/
def initial (files : Bytes → Option Bytes) : Rec2CSV := ⟨[], [], [], [], files⟩

/-- `entries.second + ".csv"`. -/
def csvFile (name : Bytes) : Bytes := name ++ asciiBytes ".csv"

/-! ## Writing files -/

/-- What is in a file after it has been opened: its first use truncates it. -/
def opened (s : Rec2CSV) (name : Bytes) : Bytes :=
  if s.mapOfFilenamesThatHaveBeenReset.count name = 0 then []
  else (s.files (csvFile name)).getD []

/-- What `fileWriter` does for an element of `mapOfFilenames`, if the file can be opened. -/
def writeFile (s : Rec2CSV) (entries : Bytes × Bytes) : Rec2CSV :=
  let fout := s.opened entries.2
  let s :=
    if s.mapOfEntries.count entries.1 ≠ 0 then
      let tmp := (s.mapOfEntries.find entries.1).getD []
      { s with
        files := Function.update s.files (csvFile entries.2) (some (fout ++ tmp))
        mapOfEntries := s.mapOfEntries.assign entries.1 []
        mapOfEntriesSizes := s.mapOfEntriesSizes.assign entries.1 0 }
    else { s with files := Function.update s.files (csvFile entries.2) (some fout) }
  { s with
    mapOfFilenamesThatHaveBeenReset := s.mapOfFilenamesThatHaveBeenReset.assign entries.2 true }

/-- The elements of a map in the order of their keys. -/
def inKeyOrder (m : KeyValueMap Bytes Bytes) : List (Bytes × Bytes) :=
  m.mergeSort fun e e' => decide (e.1 ≤ e'.1)

/-- `fileWriter()`. -/
def fileWriter (s : Rec2CSV) : Rec2CSV := (inKeyOrder s.mapOfFilenames).foldl writeFile s

/-! ## The loop -/

def semicolon : Byte := 0x3B

/-- `TEN_MB`. -/
def tenMB : Nat := 10 * 1024 * 1024

/-- Of an envelope, only the time stamps are printed. -/
def mask : KeyValueMap (BitVec 32) Bool :=
  [(1, false), (2, false), (3, true), (4, true), (5, true), (6, false)]

/-- `sstrFilename << m.messageName() << "-" << env.senderStamp()`. -/
def filename (m : MetaMessage) (senderStamp : BitVec 32) : Bytes :=
  m.messageName ++ asciiBytes "-" ++ decimal senderStamp.toNat

section Loop

variable (F : FloatFormat)

/-- The time stamps of an envelope. -/
def stampsCSV (withHeader : Bool) (env : Envelope.Values) : Bytes :=
  (accept F Envelope env (init semicolon withHeader mask)).csv

/-- The values of a generic message. -/
def valuesCSV {n : Nat} (withHeader : Bool) (gm : GenericMessage n) : Bytes :=
  ((GenericMessage.visitable (visitor F) _).accept gm (init semicolon withHeader [])).2.csv

/-- The entry for an envelope; for the first one of its key, there is a header. There is none if an
element is accessed that does not exist. -/
def entryOf {n : Nat} (isFirst : Bool) (env : Envelope.Values) (gm : GenericMessage n) :
    Option Bytes :=
  if isFirst then do
    let timeStampsWithHeader := stringtoolbox.split (stampsCSV F true env) newline
    let valuesWithHeader := stringtoolbox.split (valuesCSV F true gm) newline
    return (← timeStampsWithHeader[0]?) ++ (← valuesWithHeader[0]?) ++ [newline] ++
      (← timeStampsWithHeader[1]?) ++ (← valuesWithHeader[1]?) ++ [newline]
  else do
    return (← (stringtoolbox.split (stampsCSV F false env) newline)[0]?) ++ valuesCSV F false gm

/-- The entry is appended to those of its key. -/
def addEntry (s : Rec2CSV) (key name entry : Bytes) : Rec2CSV :=
  { s with
    mapOfFilenames := s.mapOfFilenames.assign key name
    mapOfEntries := s.mapOfEntries.assign key ((s.mapOfEntries.find key).getD [] ++ entry)
    mapOfEntriesSizes :=
      s.mapOfEntriesSizes.assign key ((s.mapOfEntriesSizes.find key).getD 0 + entry.length) }

/-- The size of the entries is kept track of. -/
def dump (s : Rec2CSV) (key : Bytes) : Rec2CSV :=
  if tenMB < (s.mapOfEntriesSizes.find key).getD 0 then s.fileWriter else s

variable (memory : Nat) (uninit : Nat → Byte) (c : EnvelopeConverter)

/-- What is done with an envelope, given the specification and its messages by identifier. -/
def process (s : Rec2CSV) (env : Envelope.Values) : Option Rec2CSV :=
  match c.scopeOfMetaMessages.find (Envelope.dataType env) with
  | some m => do
      let gm ← c.genericMessage memory uninit m (Envelope.serializedData env)
      let key := CluonFilter.key env
      let entry ← entryOf F (s.mapOfEntries.count key = 0) env gm
      return (s.addEntry key (filename m (Envelope.senderStamp env)) entry).dump key
  | none => some s

variable (entriesPerSecond : Multimap Int IndexEntry → BitVec 32) (fuel : Nat)

/-- The loop over the envelopes of a player, with at most the given number of rounds. -/
def loop : Nat → Player → Rec2CSV → Option Rec2CSV
  | 0, _, _ => none
  | rounds + 1, player, s =>
      if player.hasMoreData then do
        let (next, player) ← player.getNextEnvelopeToBeReplayed uninit entriesPerSecond fuel
        let s ← if next.1 then s.process F memory uninit c next.2 else some s
        loop rounds player s
      else some s

end Loop

end Rec2CSV

/-- `cluon_rec2csv(argc, argv)` with the specification and the bytes of the recording: the files at
the end. -/
def rec2csv (F : FloatFormat) (memory : Nat) (uninit : Nat → Byte) (c : EnvelopeConverter)
    (entriesPerSecond : Multimap Int IndexEntry → BitVec 32) (fuel : Nat) (rec : Bytes)
    (files : Bytes → Option Bytes) : Option (Bytes → Option Bytes) := do
  let player ← Player.construct uninit entriesPerSecond fuel (some rec) false false
  let s ← Rec2CSV.loop F memory uninit c entriesPerSecond fuel fuel player (.initial files)
  return s.fileWriter.files

namespace Rec2CSV

/-! ## What a file will contain -/

/-- What is in a file, and what is kept for it. -/
def content (s : Rec2CSV) (key name : Bytes) : Bytes :=
  s.opened name ++ (s.mapOfEntries.find key).getD []

theorem csvFile_injective : Function.Injective csvFile := fun _ _ => List.append_cancel_right

/-- The file has been written, and nothing is kept for it. -/
structure Settled (s : Rec2CSV) (key name : Bytes) : Prop where
  reset : s.mapOfFilenamesThatHaveBeenReset.count name ≠ 0
  entries : (s.mapOfEntries.find key).getD [] = []
  exists_file : (s.files (csvFile name)).isSome

theorem Settled.files_eq {s : Rec2CSV} {key name : Bytes} (settled : s.Settled key name) :
    s.files (csvFile name) = some (s.content key name) := by
  obtain ⟨file, found⟩ := Option.isSome_iff_exists.mp settled.exists_file
  rw [content, settled.entries, List.append_nil, opened, if_neg settled.reset, found]
  rfl

@[simp] theorem count_assign_ne_zero {κ α : Type} [DecidableEq κ] (m : KeyValueMap κ α) (k k' : κ)
    (v : α) : (m.assign k v).count k' ≠ 0 ↔ k = k' ∨ m.count k' ≠ 0 := by
  rw [← Nat.pos_iff_ne_zero, ← Nat.pos_iff_ne_zero, KeyValueMap.count_pos, KeyValueMap.count_pos,
    KeyValueMap.find_assign]
  by_cases same : k = k' <;> simp [same]

/-- What is kept for a key, as `writeFile` uses it. -/
theorem writeFile_eq (s : Rec2CSV) (key name : Bytes) :
    let s' := s.writeFile (key, name)
    s'.files = Function.update s.files (csvFile name) (some (s.content key name)) ∧
      s'.mapOfFilenames = s.mapOfFilenames ∧
      (∀ k, s'.mapOfEntries.find k = if key = k then (s.mapOfEntries.find k).map fun _ => []
        else s.mapOfEntries.find k) ∧
      (∀ n, s'.mapOfFilenamesThatHaveBeenReset.count n ≠ 0 ↔
        name = n ∨ s.mapOfFilenamesThatHaveBeenReset.count n ≠ 0) := by
  by_cases kept : s.mapOfEntries.count key ≠ 0
  · obtain ⟨tmp, found⟩ := Option.isSome_iff_exists.mp
      (KeyValueMap.count_pos.mp (Nat.pos_of_ne_zero kept))
    simp only [writeFile, if_pos kept]
    refine ⟨rfl, trivial, fun k => ?_, fun n => count_assign_ne_zero _ _ _ _⟩
    rw [KeyValueMap.find_assign]
    split_ifs with same
    · rw [← same, found]
      rfl
    · rfl
  · have none : s.mapOfEntries.find key = none := by
      rw [ne_eq, not_not] at kept
      rw [← Option.not_isSome_iff_eq_none, ← KeyValueMap.count_pos, kept]
      exact lt_irrefl 0
    simp only [writeFile, if_neg kept]
    refine ⟨?_, trivial, fun k => ?_, fun n => count_assign_ne_zero _ _ _ _⟩
    · rw [content, none]
      exact congrArg _ (congrArg _ (List.append_nil _).symm)
    · split_ifs with same
      · rw [← same, none]
        rfl
      · rfl

/-- **Writing does not change what a file will contain**, neither this one nor another one. -/
theorem content_writeFile (s : Rec2CSV) {key name k n : Bytes} (same : key = k ↔ name = n) :
    (s.writeFile (key, name)).content k n = s.content k n := by
  obtain ⟨files, -, entries, reset⟩ := s.writeFile_eq key name
  rw [content, opened, files, entries]
  by_cases here : name = n
  · obtain rfl := here
    obtain rfl := same.mpr rfl
    rw [if_neg ((reset name).mpr (.inl rfl)), Function.update_self, if_pos rfl]
    cases s.mapOfEntries.find key <;> exact List.append_nil _
  · rw [if_neg (mt same.mp here), Function.update_of_ne
      (fun eq => here (csvFile_injective eq).symm), content, opened]
    have resets : (s.writeFile (key, name)).mapOfFilenamesThatHaveBeenReset.count n = 0 ↔
        s.mapOfFilenamesThatHaveBeenReset.count n = 0 := by
      rw [← not_iff_not]
      exact (reset n).trans (or_iff_right here)
    simp only [resets]

theorem settled_writeFile (s : Rec2CSV) (key name : Bytes) :
    (s.writeFile (key, name)).Settled key name := by
  obtain ⟨files, -, entries, reset⟩ := s.writeFile_eq key name
  refine ⟨(reset name).mpr (.inl rfl), ?_, ?_⟩
  · rw [entries, if_pos rfl]
    cases s.mapOfEntries.find key <;> rfl
  · rw [files, Function.update_self]
    rfl

theorem Settled.writeFile {s : Rec2CSV} {k n : Bytes} (settled : s.Settled k n)
    (key name : Bytes) : (s.writeFile (key, name)).Settled k n := by
  obtain ⟨files, -, entries, reset⟩ := s.writeFile_eq key name
  refine ⟨(reset n).mpr (.inr settled.reset), ?_, ?_⟩
  · rw [entries]
    split_ifs
    · cases s.mapOfEntries.find k <;> rfl
    · exact settled.entries
  · rw [files, Function.update_apply]
    split_ifs
    · rfl
    · exact settled.exists_file

/-! ## Writing all files -/

theorem content_foldl {k n : Bytes} (l : List (Bytes × Bytes)) :
    (∀ e ∈ l, e.1 = k ↔ e.2 = n) → ∀ s : Rec2CSV, (l.foldl writeFile s).content k n =
      s.content k n := by
  induction l with
  | nil => intro _ _; rfl
  | cons e l ih =>
      intro same s
      obtain ⟨here, others⟩ := List.forall_mem_cons.mp same
      rw [List.foldl_cons, ih others]
      exact s.content_writeFile here

theorem Settled.foldl {k n : Bytes} (l : List (Bytes × Bytes)) :
    ∀ {s : Rec2CSV}, s.Settled k n → (l.foldl Rec2CSV.writeFile s).Settled k n := by
  induction l with
  | nil => intro _ settled; exact settled
  | cons e l ih => intro _ settled; exact ih (settled.writeFile e.1 e.2)

theorem settled_foldl {e : Bytes × Bytes} (l : List (Bytes × Bytes)) :
    e ∈ l → ∀ s : Rec2CSV, (l.foldl writeFile s).Settled e.1 e.2 := by
  induction l with
  | nil => intro mem; cases mem
  | cons e' l ih =>
      intro mem s
      rcases List.mem_cons.mp mem with rfl | later
      · exact Settled.foldl l (s.settled_writeFile e.1 e.2)
      · exact ih later (s.writeFile e')

/-- What is not changed by writing files: the names, which keys there are, the other files, and
which files have been written before. -/
theorem foldl_frame (l : List (Bytes × Bytes)) (s : Rec2CSV) :
    let s' := l.foldl writeFile s
    s'.mapOfFilenames = s.mapOfFilenames ∧
      (∀ k, (s'.mapOfEntries.find k).isSome = (s.mapOfEntries.find k).isSome) ∧
      (∀ file, (∀ e ∈ l, csvFile e.2 ≠ file) → s'.files file = s.files file) ∧
      (∀ n, s'.mapOfFilenamesThatHaveBeenReset.count n ≠ 0 →
        (∃ e ∈ l, e.2 = n) ∨ s.mapOfFilenamesThatHaveBeenReset.count n ≠ 0) := by
  induction l generalizing s with
  | nil => exact ⟨rfl, fun _ => rfl, fun _ _ => rfl, fun _ => .inr⟩
  | cons e l ih =>
      obtain ⟨files, names, entries, reset⟩ := s.writeFile_eq e.1 e.2
      obtain ⟨names', entries', files', reset'⟩ := ih (s.writeFile e)
      refine ⟨names'.trans names, fun k => (entries' k).trans ?_, fun file other => ?_,
        fun n written => ?_⟩
      · rw [entries]
        split_ifs <;> simp
      · obtain ⟨here, others⟩ := List.forall_mem_cons.mp other
        rw [List.foldl_cons, files' file others]
        exact (congrFun files file).trans (Function.update_of_ne here.symm _ _)
      · rcases reset' n written with ⟨e', mem, same⟩ | before
        · exact .inl ⟨e', List.mem_cons_of_mem _ mem, same⟩
        · rcases (reset n).mp before with same | before
          · exact .inl ⟨e, List.mem_cons_self, same⟩
          · exact .inr before

/-- The sizes are those of the entries. -/
theorem sizes_foldl (l : List (Bytes × Bytes)) : ∀ s : Rec2CSV,
    (∀ k, s.mapOfEntriesSizes.find k = (s.mapOfEntries.find k).map List.length) →
      ∀ k, (l.foldl writeFile s).mapOfEntriesSizes.find k =
        ((l.foldl writeFile s).mapOfEntries.find k).map List.length := by
  induction l with
  | nil => intro _ sizes; exact sizes
  | cons e l ih =>
      intro s sizes
      refine ih (s.writeFile e) fun k => ?_
      by_cases kept : s.mapOfEntries.count e.1 ≠ 0
      · simp only [writeFile, if_pos kept, KeyValueMap.find_assign]
        split_ifs
        · rfl
        · exact sizes k
      · simp only [writeFile, if_neg kept]
        exact sizes k

/-- What the maps have to do with each other: different keys have different files, there are entries
for the keys of files, and only these files have been written. -/
structure Consistent (s : Rec2CSV) : Prop where
  nodup : (s.mapOfFilenames.map Prod.fst).Nodup
  injective : ∀ {k k' n}, s.mapOfFilenames.find k = some n → s.mapOfFilenames.find k' = some n →
    k = k'
  entries : ∀ k, (s.mapOfEntries.find k).isSome = (s.mapOfFilenames.find k).isSome
  sizes : ∀ k, s.mapOfEntriesSizes.find k = (s.mapOfEntries.find k).map List.length
  reset : ∀ n, s.mapOfFilenamesThatHaveBeenReset.count n ≠ 0 →
    ∃ k, s.mapOfFilenames.find k = some n

theorem mem_inKeyOrder {m : KeyValueMap Bytes Bytes} {e : Bytes × Bytes} :
    e ∈ inKeyOrder m ↔ e ∈ m :=
  (List.mergeSort_perm m _).mem_iff

section FileWriter

variable {s : Rec2CSV} (consistent : s.Consistent)
include consistent

theorem Consistent.mem_iff {e : Bytes × Bytes} :
    e ∈ inKeyOrder s.mapOfFilenames ↔ s.mapOfFilenames.find e.1 = some e.2 :=
  mem_inKeyOrder.trans (KeyValueMap.mem_iff_find consistent.nodup)

/-- **`fileWriter` does not change what the files will contain.** -/
theorem Consistent.content_fileWriter {k n : Bytes} (found : s.mapOfFilenames.find k = some n) :
    s.fileWriter.content k n = s.content k n := by
  refine content_foldl _ (fun e mem => ⟨fun same => ?_, fun same => ?_⟩) s
  · have here := consistent.mem_iff.mp mem
    rw [same, found] at here
    exact (Option.some.inj here).symm
  · have here := consistent.mem_iff.mp mem
    rw [same] at here
    exact consistent.injective here found

theorem Consistent.settled_fileWriter {k n : Bytes} (found : s.mapOfFilenames.find k = some n) :
    s.fileWriter.Settled k n :=
  settled_foldl (e := (k, n)) _ (consistent.mem_iff.mpr found) s

omit consistent in
theorem filenames_fileWriter : s.fileWriter.mapOfFilenames = s.mapOfFilenames :=
  (foldl_frame _ s).1

theorem Consistent.fileWriter : s.fileWriter.Consistent := by
  obtain ⟨names, entries, -, reset⟩ := foldl_frame (inKeyOrder s.mapOfFilenames) s
  refine ⟨?_, ?_, fun k => ?_, sizes_foldl _ s consistent.sizes, fun n written => ?_⟩
  · rw [filenames_fileWriter]
    exact consistent.nodup
  · rw [filenames_fileWriter]
    exact consistent.injective
  · rw [filenames_fileWriter]
    exact (entries k).trans (consistent.entries k)
  · rw [filenames_fileWriter]
    rcases reset n written with ⟨e, mem, rfl⟩ | before
    · exact ⟨e.1, consistent.mem_iff.mp mem⟩
    · exact consistent.reset n before

/-- Only the files of keys are written. -/
theorem Consistent.files_fileWriter {file : Bytes}
    (other : ∀ k n, s.mapOfFilenames.find k = some n → csvFile n ≠ file) :
    s.fileWriter.files file = s.files file :=
  (foldl_frame (inKeyOrder s.mapOfFilenames) s).2.2.1 file fun e mem =>
    other e.1 e.2 (consistent.mem_iff.mp mem)

end FileWriter

end Rec2CSV

end Cluon
