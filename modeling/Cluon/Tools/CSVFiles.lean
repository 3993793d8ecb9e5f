import Cluon.Tools.Rec2CSV

/-!
# The files of `cluon-rec2csv`

An envelope adds its line to what its file will contain, and writing does not change this. So at the
end a file has a line for each envelope of its data type and sender stamp, in the order of the
sample time stamps (`rec2csv_eq`), with the values that a program with the compiled message type
extracts from the envelope.

The first entry of a file is made from the lines of two texts with headers, so that its values end
at the first end of a line, which can only be a character. The other entries are not cut off.
-/

set_option autoImplicit false

namespace Cluon

open Library InputStream JSON ToCSVVisitor

namespace Rec2CSV

/-! ## Lines -/

section Lines

variable (F : FloatFormat) (uninit : Nat → Byte) (types : BitVec 32 → MessageType)

/-- The message that a program with the compiled type extracts from an envelope. -/
def payload (e : Envelope.Values) : (types (Envelope.dataType e)).Values :=
  FromProtoVisitor.decodeTwoStage uninit (types (Envelope.dataType e)) .init
    (Envelope.serializedData e) (types (Envelope.dataType e)).fields.initial

/-- The time stamps. -/
def stampsLine (e : Envelope.Values) : Bytes := row F semicolon mask Envelope e

/-- The values of the message. -/
def valuesLine (e : Envelope.Values) : Bytes :=
  row F semicolon [] (types (Envelope.dataType e)) (payload uninit types e)

/-- The line of an envelope. -/
def line (e : Envelope.Values) : Bytes := stampsLine F e ++ valuesLine F uninit types e

/-- The line of the first envelope, which ends where there is an end of a line in it. -/
def firstLine (e : Envelope.Values) : Bytes :=
  stampsLine F e ++ (valuesLine F uninit types e).takeWhile fun c => c ≠ newline

/-- The header of a file. -/
def header (T : MessageType) : Bytes :=
  headerLine semicolon mask Envelope ++ headerLine semicolon [] T

/-- What is written for envelopes with one key. -/
def textOf : List Envelope.Values → Bytes
  | [] => []
  | e :: es => terminated newline
      (header (types (Envelope.dataType e)) :: firstLine F uninit types e ::
        es.map (line F uninit types))

theorem textOf_concat (es : List Envelope.Values) (e : Envelope.Values) :
    textOf F uninit types (es ++ [e]) = textOf F uninit types es ++
      if es = [] then
        terminated newline [header (types (Envelope.dataType e)), firstLine F uninit types e]
      else terminated newline [line F uninit types e] := by
  cases es with
  | nil => rfl
  | cons e' es =>
      rw [if_neg (List.cons_ne_nil _ _), List.cons_append, textOf, textOf, List.map_append,
        ← terminated_append]
      rfl

/-- The time stamps are six numbers. -/
theorem stampsLine_eq (e : Envelope.Values) :
    stampsLine F e = terminated semicolon
      ([Envelope.sent e, Envelope.received e, Envelope.sampleTimeStamp e].flatMap fun stamp =>
        [decimalInt (TimeStamp.seconds stamp).toInt,
          decimalInt (TimeStamp.microseconds stamp).toInt]) := rfl

theorem newline_notMem_stampsLine (e : Envelope.Values) : newline ∉ stampsLine F e := by
  rw [stampsLine_eq, newline_notMem_terminated]
  refine ⟨fun item mem => ?_, fun _ => by decide⟩
  obtain ⟨stamp, -, mem⟩ := List.mem_flatMap.mp mem
  rcases List.mem_pair.mp mem with rfl | rfl <;>
    exact notMem_decimalInt (by decide) (by decide) _

omit uninit types in
/-- What a visitor writes for one message. -/
theorem csv_accept_once (T : MessageType) (m : T.Values) (withHeader : Bool)
    (mask : KeyValueMap (BitVec 32) Bool) :
    (accept F T m (init semicolon withHeader mask)).csv =
      (if withHeader then headerLine semicolon mask T ++ [newline] else []) ++
        (row F semicolon mask T m ++ [newline]) := by
  rw [accept_eq F T m rfl]
  cases withHeader <;> rfl

/-- The specification describes the type of the message in an envelope, its names are names, and
memory can be reserved for the lengths that the payload declares. -/
structure Known (memory : Nat) (uninit : Nat → Byte) (types : BitVec 32 → MessageType)
    (c : EnvelopeConverter) (e : Envelope.Values) : Prop where
  knows : ∀ {mm}, c.scopeOfMetaMessages.find (Envelope.dataType e) = some mm →
    c.Knows (Envelope.dataType e) mm (types (Envelope.dataType e))
  names : (types (Envelope.dataType e)).fields.All fun field => MessageParser.IsName field.name
  reserves : c.Reserves memory uninit e

omit F uninit types in
/-- There is one line for the header. -/
theorem newline_notMem_header {T : MessageType}
    (names : T.fields.All fun field => MessageParser.IsName field.name) : newline ∉ header T := by
  have stamps : newline ∉ headerLine semicolon mask Envelope := by decide
  have values : newline ∉ headerLine semicolon [] T := by
    rw [headerLine, newline_notMem_terminated]
    exact ⟨newline_notMem_labels names, fun _ => by decide⟩
  rw [header, List.mem_append]
  exact not_or.mpr ⟨stamps, values⟩

variable {uninit types} {memory : Nat} {c : EnvelopeConverter} {e : Envelope.Values}

/-- **The entry for an envelope** is its line, behind the header if it is the first one. -/
theorem exists_entryOf (known : Known memory uninit types c e) {mm : MetaMessage}
    (found : c.scopeOfMetaMessages.find (Envelope.dataType e) = some mm) :
    ∃ gm, c.genericMessage memory uninit mm (Envelope.serializedData e) = some gm ∧
      entryOf F true e gm = some (terminated newline
        [header (types (Envelope.dataType e)), firstLine F uninit types e]) ∧
      entryOf F false e gm = some (terminated newline [line F uninit types e]) := by
  have knows := known.knows found
  obtain ⟨gm, made, holds⟩ :=
    EnvelopeConverter.exists_genericMessage_holdsNamed knows (known.reserves mm found)
  have parametric := ToCSVVisitor.parametric F
  have alike := GenericMessage.alike_visitable parametric
    (GenericMessage.visitsAlike_of_parametric parametric _ knows.distinct)
    (types (Envelope.dataType e)).info c.listOfMetaMessages.length
  have values (withHeader : Bool) : valuesCSV F withHeader gm =
      (accept F _ (payload uninit types e) (init semicolon withHeader [])).csv :=
    congrArg csv (alike.accept holds (init semicolon withHeader [])).2
  have whole {part : Bytes} (noEnd : newline ∉ part) :
      part.takeWhile (fun c => c ≠ newline) = part :=
    List.takeWhile_eq_self_iff.mpr fun c mem => decide_eq_true (ne_of_mem_of_not_mem mem noEnd)
  have stampsEnd := whole (newline_notMem_stampsLine F e)
  refine ⟨gm, made, ?_, ?_⟩
  · have stamps : stampsCSV F true e = headerLine semicolon mask Envelope ++
        newline :: (stampsLine F e ++ [newline]) := by
      rw [stampsCSV, csv_accept_once, if_pos rfl, List.append_assoc]
      rfl
    have values : valuesCSV F true gm =
        headerLine semicolon [] (types (Envelope.dataType e)) ++
          newline :: (valuesLine F uninit types e ++ [newline]) := by
      rw [values, csv_accept_once, if_pos rfl, List.append_assoc]
      rfl
    have noEnd := newline_notMem_header known.names
    rw [header, List.mem_append, not_or] at noEnd
    rw [entryOf, if_pos rfl, stamps, values]
    simp only [stringtoolbox.getElem?_split_zero, stringtoolbox.getElem?_split_one noEnd.1,
      stringtoolbox.getElem?_split_one noEnd.2, whole noEnd.1, whole noEnd.2, stampsEnd,
      Option.bind_eq_bind, Option.bind_some, Option.pure_def, terminated_cons, header, firstLine,
      List.append_assoc, List.singleton_append]
    rfl
  · have stamps : stampsCSV F false e = stampsLine F e ++ [newline] := csv_accept_once F _ _ _ _
    have values : valuesCSV F false gm = valuesLine F uninit types e ++ [newline] := by
      rw [values, csv_accept_once]
      rfl
    rw [entryOf, if_neg Bool.false_ne_true, stamps, values, stringtoolbox.getElem?_split_zero,
      stampsEnd, terminated_singleton, line, List.append_assoc]
    rfl

end Lines

/-! ## Keys and names of files -/

/-- The name of the file for an envelope, if the specification has a message for it. -/
def filenameOf (c : EnvelopeConverter) (e : Envelope.Values) : Option Bytes :=
  (c.scopeOfMetaMessages.find (Envelope.dataType e)).map fun m =>
    filename m (Envelope.senderStamp e)

theorem key_eq_iff {e e' : Envelope.Values} : CluonFilter.key e = CluonFilter.key e' ↔
    Envelope.dataType e = Envelope.dataType e' ∧
      Envelope.senderStamp e = Envelope.senderStamp e' := by
  constructor
  · intro same
    have noSlash (v : Int) : CluonFilter.slash ∉ decimalInt v :=
      notMem_decimalInt (by decide) (by decide) v
    have noSlash' (n : Nat) : CluonFilter.slash ∉ decimal n := by
      rw [← decimalInt_natCast]
      exact noSlash n
    obtain ⟨types, -, stamps⟩ :=
      (List.append_cons_inj_of_notMem (noSlash _) (noSlash' _)).mp same
    exact ⟨BitVec.eq_of_toInt_eq (decimalInt_injective types),
      BitVec.eq_of_toNat_eq (decimal_injective stamps)⟩
  · rintro ⟨types, stamps⟩
    rw [CluonFilter.key, CluonFilter.key, types, stamps]

theorem filenameOf_congr (c : EnvelopeConverter) {e e' : Envelope.Values}
    (same : CluonFilter.key e = CluonFilter.key e') : filenameOf c e = filenameOf c e' := by
  obtain ⟨types, stamps⟩ := key_eq_iff.mp same
  rw [filenameOf, filenameOf, types, stamps]

/-- The name of a message is what is before the last minus. -/
theorem filename_eq_iff {m m' : MetaMessage} {stamp stamp' : BitVec 32} :
    filename m stamp = filename m' stamp' ↔ m.messageName = m'.messageName ∧ stamp = stamp' := by
  constructor
  · intro same
    have reversed := congrArg List.reverse same
    simp only [filename, List.reverse_append, List.append_assoc] at reversed
    have noMinus (n : Nat) : (45#8 : Byte) ∉ (decimal n).reverse :=
      mt List.mem_reverse.mp (minus_notMem_decimal n)
    have parts := congrArg (stringtoolbox.splitParts 45#8) reversed
    have minus : (asciiBytes "-").reverse = [45#8] := rfl
    rw [minus, List.singleton_append, List.singleton_append,
      stringtoolbox.splitParts_append _ (noMinus _),
      stringtoolbox.splitParts_append _ (noMinus _)] at parts
    have digits := List.reverse_injective (Prod.mk.inj parts).1
    rw [digits, minus] at reversed
    exact ⟨List.reverse_injective (List.append_cancel_left (List.append_cancel_left reversed)),
      BitVec.eq_of_toNat_eq (decimal_injective digits)⟩
  · rintro ⟨names, rfl⟩
    rw [filename, filename, names]

/-- No two identifiers have messages with the same name. -/
def DistinctNames (c : EnvelopeConverter) : Prop :=
  ∀ {id id' mm mm'}, c.scopeOfMetaMessages.find id = some mm →
    c.scopeOfMetaMessages.find id' = some mm' → mm.messageName = mm'.messageName → id = id'

theorem key_eq_of_filenameOf {c : EnvelopeConverter} (distinct : DistinctNames c)
    {e e' : Envelope.Values} {name : Bytes} (here : filenameOf c e = some name)
    (there : filenameOf c e' = some name) : CluonFilter.key e = CluonFilter.key e' := by
  obtain ⟨mm, found, rfl⟩ := Option.map_eq_some_iff.mp here
  obtain ⟨mm', found', same⟩ := Option.map_eq_some_iff.mp there
  obtain ⟨names, stamps⟩ := filename_eq_iff.mp same
  exact key_eq_iff.mpr ⟨distinct found found' names.symm, stamps.symm⟩

/-! ## The invariant -/

section Process

variable (F : FloatFormat) (uninit : Nat → Byte) (types : BitVec 32 → MessageType)

/-- What the envelopes of a key have been written to a file, or are kept for it. -/
structure Collects (c : EnvelopeConverter) (files : Bytes → Option Bytes)
    (done : List Envelope.Values) (s : Rec2CSV) : Prop where
  consistent : s.Consistent
  filenames : ∀ k n, s.mapOfFilenames.find k = some n ↔
    ∃ e ∈ done, CluonFilter.key e = k ∧ filenameOf c e = some n
  content : ∀ k n, s.mapOfFilenames.find k = some n →
    s.content k n = textOf F uninit types (done.filter fun e => CluonFilter.key e = k)
  others : ∀ file, (∀ k n, s.mapOfFilenames.find k = some n → csvFile n ≠ file) →
    s.files file = files file

/-- No more than ten megabytes are kept for a file. -/
def Bounded (s : Rec2CSV) : Prop :=
  ∀ k entries, s.mapOfEntries.find k = some entries → entries.length ≤ tenMB

variable {F uninit types} {memory : Nat} {c : EnvelopeConverter} {files : Bytes → Option Bytes}
  {done : List Envelope.Values} {s : Rec2CSV}

theorem collects_initial : Collects F uninit types c files [] (initial files) where
  consistent := ⟨List.nodup_nil, nofun, fun _ => rfl, fun _ => rfl, fun _ written =>
    absurd rfl written⟩
  filenames k n := by simp [initial]
  content := nofun
  others _ _ := rfl

/-- **Writing everything.** -/
theorem Collects.fileWriter (inv : Collects F uninit types c files done s) :
    Collects F uninit types c files done s.fileWriter where
  consistent := inv.consistent.fileWriter
  filenames := by rw [filenames_fileWriter]; exact inv.filenames
  content k n found := by
    rw [filenames_fileWriter] at found
    rw [inv.consistent.content_fileWriter found, inv.content k n found]
  others file other := by
    rw [filenames_fileWriter] at other
    rw [inv.consistent.files_fileWriter other, inv.others file other]

theorem bounded_fileWriter (consistent : s.Consistent) : s.fileWriter.Bounded := by
  intro k entries kept
  have isSome : (s.mapOfFilenames.find k).isSome := by
    rw [← filenames_fileWriter, ← consistent.fileWriter.entries, kept]
    rfl
  obtain ⟨n, found⟩ := Option.isSome_iff_exists.mp isSome
  have settled := (consistent.settled_fileWriter found).entries
  rw [kept, Option.getD_some] at settled
  rw [settled]
  exact Nat.zero_le _

/-- **An envelope that the specification does not know** changes nothing. -/
theorem Collects.skip (inv : Collects F uninit types c files done s) {e : Envelope.Values}
    (unknown : filenameOf c e = none) : Collects F uninit types c files (done ++ [e]) s where
  consistent := inv.consistent
  filenames k n := by
    rw [inv.filenames]
    simp [List.mem_append, or_and_right, exists_or, unknown]
  content k n found := by
    have other : CluonFilter.key e ≠ k := by
      intro same
      obtain ⟨e', -, same', known⟩ := (inv.filenames k n).mp found
      rw [filenameOf_congr c (same'.trans same.symm), unknown] at known
      cases known
    rw [inv.content k n found, List.filter_append, List.filter_cons_of_neg (by simpa using other),
      List.filter_nil, List.append_nil]
  others := inv.others

/-- The name that is stored for the key of an envelope is its own. -/
theorem Collects.name_eq (inv : Collects F uninit types c files done s) {e : Envelope.Values}
    {n n' : Bytes} (known : filenameOf c e = some n)
    (found : s.mapOfFilenames.find (CluonFilter.key e) = some n') : n' = n := by
  obtain ⟨e', -, same, known'⟩ := (inv.filenames _ _).mp found
  rw [filenameOf_congr c same, known] at known'
  exact (Option.some.inj known').symm

/-- The names after an entry has been added. -/
theorem Collects.filenames_addEntry (inv : Collects F uninit types c files done s)
    {e : Envelope.Values} {name : Bytes} (known : filenameOf c e = some name) (entry : Bytes)
    (k n : Bytes) :
    (s.addEntry (CluonFilter.key e) name entry).mapOfFilenames.find k = some n ↔
      ∃ e' ∈ done ++ [e], CluonFilter.key e' = k ∧ filenameOf c e' = some n := by
  simp only [addEntry, KeyValueMap.find_assign, List.mem_append, List.mem_singleton, or_and_right,
    exists_or, exists_eq_left, known]
  split_ifs with here
  · refine ⟨fun same => .inr ⟨here, same⟩, ?_⟩
    rintro (⟨e', mem, same, known'⟩ | ⟨-, same⟩)
    · rwa [filenameOf_congr c (same.trans here.symm), known] at known'
    · exact same
  · rw [inv.filenames]
    exact ⟨.inl, fun either => either.resolve_right fun both => here both.1⟩

/-- What is kept under the other keys stays. -/
theorem content_addEntry (key name entry k n : Bytes) :
    (s.addEntry key name entry).content k n =
      s.content k n ++ if key = k then entry else [] := by
  change s.opened n ++ ((s.mapOfEntries.assign key _).find k).getD [] = _
  rw [KeyValueMap.find_assign, content]
  split_ifs with same
  · rw [same, List.append_assoc]
    rfl
  · rw [List.append_nil]

/-- For a new key, nothing has been written or is kept. -/
theorem Collects.content_of_new (inv : Collects F uninit types c files done s)
    (distinct : DistinctNames c) {e : Envelope.Values} {name : Bytes}
    (known : filenameOf c e = some name)
    (new : s.mapOfFilenames.find (CluonFilter.key e) = none) :
    s.content (CluonFilter.key e) name = [] := by
  have noEntries : s.mapOfEntries.find (CluonFilter.key e) = none := by
    rw [← Option.not_isSome_iff_eq_none, inv.consistent.entries, new]
    exact Bool.false_ne_true
  have unwritten : s.mapOfFilenamesThatHaveBeenReset.count name = 0 := by
    by_contra written
    obtain ⟨k, found⟩ := inv.consistent.reset name written
    obtain ⟨e', -, rfl, known'⟩ := (inv.filenames k name).mp found
    rw [key_eq_of_filenameOf distinct known' known, new] at found
    cases found
  rw [Rec2CSV.content, opened, if_pos unwritten, noEntries]
  rfl

/-- **An entry is added.** -/
theorem Collects.addEntry (inv : Collects F uninit types c files done s)
    (distinct : DistinctNames c) {e : Envelope.Values} {name entry : Bytes}
    (known : filenameOf c e = some name)
    (entry_eq : entry =
      if (s.mapOfEntries.find (CluonFilter.key e)).isSome then
        terminated newline [line F uninit types e]
      else terminated newline
        [header (types (Envelope.dataType e)), firstLine F uninit types e]) :
    Collects F uninit types c files (done ++ [e])
      (s.addEntry (CluonFilter.key e) name entry) := by
  have filenames := inv.filenames_addEntry known entry
  have before {k n : Bytes} (found : s.mapOfFilenames.find k = some n) :
      (s.addEntry (CluonFilter.key e) name entry).mapOfFilenames.find k = some n := by
    obtain ⟨e', mem, rest⟩ := (inv.filenames k n).mp found
    exact (filenames k n).mpr ⟨e', List.mem_append_left _ mem, rest⟩
  refine ⟨⟨?_, ?_, ?_, ?_, ?_⟩, filenames, ?_, ?_⟩
  · exact KeyValueMap.nodup_keys_assign inv.consistent.nodup _ _
  · intro k k' n found found'
    obtain ⟨e₁, -, rfl, known₁⟩ := (filenames k n).mp found
    obtain ⟨e₂, -, rfl, known₂⟩ := (filenames k' n).mp found'
    exact key_eq_of_filenameOf distinct known₁ known₂
  · intro k
    simp only [Rec2CSV.addEntry, KeyValueMap.find_assign]
    split_ifs
    · rfl
    · exact inv.consistent.entries k
  · intro k
    simp only [Rec2CSV.addEntry, KeyValueMap.find_assign]
    split_ifs with here
    · rw [inv.consistent.sizes]
      cases s.mapOfEntries.find (CluonFilter.key e) <;> simp
    · exact inv.consistent.sizes k
  · intro n written
    obtain ⟨k, found⟩ := inv.consistent.reset n written
    exact ⟨k, before found⟩
  · intro k n found
    rw [content_addEntry, List.filter_append]
    by_cases here : CluonFilter.key e = k
    · obtain rfl := here
      obtain ⟨e', -, same, known'⟩ := (filenames _ n).mp found
      obtain rfl : name = n := by
        rw [filenameOf_congr c same, known] at known'
        exact Option.some.inj known'
      rw [if_pos rfl, List.filter_cons_of_pos (by simp), List.filter_nil, textOf_concat, entry_eq,
        inv.consistent.entries]
      cases stored : s.mapOfFilenames.find (CluonFilter.key e) with
      | some n =>
          obtain rfl := inv.name_eq known stored
          obtain ⟨e'', mem, same', -⟩ := (inv.filenames _ n).mp stored
          have some : e'' ∈ done.filter fun e' => CluonFilter.key e' = CluonFilter.key e :=
            List.mem_filter.mpr ⟨mem, decide_eq_true same'⟩
          rw [inv.content _ n stored, Option.isSome_some, if_pos rfl,
            if_neg (List.ne_nil_of_mem some)]
      | none =>
          have first : done.filter (fun e' => CluonFilter.key e' = CluonFilter.key e) = [] := by
            refine List.filter_eq_nil_iff.mpr fun e'' mem same' => ?_
            have stored' := (inv.filenames (CluonFilter.key e) name).mpr ⟨e'', mem,
              of_decide_eq_true same',
              (filenameOf_congr c (of_decide_eq_true same')).trans known⟩
            rw [stored] at stored'
            cases stored'
          rw [inv.content_of_new distinct known stored, first, Option.isSome_none,
            if_neg Bool.false_ne_true, if_pos rfl]
          rfl
    · have inMap : s.mapOfFilenames.find k = some n := by
        simpa only [Rec2CSV.addEntry, KeyValueMap.find_assign, if_neg here] using found
      rw [if_neg here, List.filter_cons_of_neg (by simpa using here), List.filter_nil,
        List.append_nil, List.append_nil, inv.content k n inMap]
  · intro file other
    exact inv.others file fun k n found => other k n (before found)

/-- Unless there is too much, the size of what is kept is within the bounds. -/
theorem bounded_dump (consistent : s.Consistent) (key : Bytes)
    (others : ∀ k entries, key ≠ k → s.mapOfEntries.find k = some entries →
      entries.length ≤ tenMB) : (s.dump key).Bounded := by
  rw [dump]
  split_ifs with large
  · exact bounded_fileWriter consistent
  · intro k entries kept
    by_cases here : key = k
    · rwa [consistent.sizes, here, kept, Option.map_some, Option.getD_some, not_lt] at large
    · exact others k entries here kept

/-- **Step.** -/
theorem Collects.process (inv : Collects F uninit types c files done s) (bounded : s.Bounded)
    (distinct : DistinctNames c) {e : Envelope.Values} (known : Known memory uninit types c e) :
    ∃ s', s.process F memory uninit c e = some s' ∧
      Collects F uninit types c files (done ++ [e]) s' ∧ s'.Bounded := by
  rw [Rec2CSV.process]
  cases found : c.scopeOfMetaMessages.find (Envelope.dataType e) with
  | none =>
      refine ⟨s, rfl, inv.skip ?_, bounded⟩
      rw [filenameOf, found]
      rfl
  | some mm =>
      obtain ⟨gm, made, first, next⟩ := exists_entryOf F known found
      have name : filenameOf c e = some (filename mm (Envelope.senderStamp e)) := by
        rw [filenameOf, found]
        rfl
      obtain ⟨entry, entered, entry_eq⟩ : ∃ entry,
          entryOf F (s.mapOfEntries.count (CluonFilter.key e) = 0) e gm = some entry ∧ entry =
            if (s.mapOfEntries.find (CluonFilter.key e)).isSome then
              terminated newline [line F uninit types e]
            else terminated newline
              [header (types (Envelope.dataType e)), firstLine F uninit types e] := by
        by_cases present : (s.mapOfEntries.find (CluonFilter.key e)).isSome
        · refine ⟨_, ?_, (if_pos present).symm⟩
          simpa [KeyValueMap.count, present] using next
        · refine ⟨_, ?_, (if_neg present).symm⟩
          simpa [KeyValueMap.count, present] using first
      have added := inv.addEntry distinct name entry_eq
      refine ⟨_, ?_, ?_, bounded_dump added.consistent (CluonFilter.key e)
        fun k entries other kept => ?_⟩
      · simp only [made, Option.bind_eq_bind, Option.bind_some, entered, Option.pure_def]
      · rw [dump]
        split_ifs
        · exact added.fileWriter
        · exact added
      · refine bounded k entries ?_
        simpa only [Rec2CSV.addEntry, KeyValueMap.find_assign, if_neg other] using kept

/-- **Run.** -/
theorem exists_foldlM_process (distinct : DistinctNames c) (es : List Envelope.Values) :
    (∀ e ∈ es, Known memory uninit types c e) → ∀ {done s}, Collects F uninit types c files done s →
      s.Bounded → ∃ s', es.foldlM (Rec2CSV.process F memory uninit c) s = some s' ∧
        Collects F uninit types c files (done ++ es) s' ∧ s'.Bounded := by
  induction es with
  | nil =>
      intro _ done s inv bounded
      exact ⟨s, rfl, (List.append_nil done).symm ▸ inv, bounded⟩
  | cons e es ih =>
      intro known done s inv bounded
      obtain ⟨here, others⟩ := List.forall_mem_cons.mp known
      obtain ⟨s₁, processed, inv₁, bounded₁⟩ := inv.process bounded distinct here
      obtain ⟨s₂, ran, inv₂, bounded₂⟩ := ih others inv₁ bounded₁
      refine ⟨s₂, ?_, by rwa [List.append_assoc] at inv₂, bounded₂⟩
      rw [List.foldlM_cons, processed]
      exact ran

variable (F uninit files) in
theorem exists_run (distinct : DistinctNames c) {es : List Envelope.Values}
    (known : ∀ e ∈ es, Known memory uninit types c e) :
    ∃ s, es.foldlM (Rec2CSV.process F memory uninit c) (initial files) = some s ∧
      Collects F uninit types c files es s ∧ s.Bounded :=
  exists_foldlM_process distinct es known collects_initial nofun

end Process

/-! ## Results -/

/-- **The loop** deals with the envelopes that a cursor returns. -/
theorem loop_eq (F : FloatFormat) (memory : Nat) (uninit : Nat → Byte) (c : EnvelopeConverter)
    (entriesPerSecond : Multimap Int IndexEntry → BitVec 32) {fuel : Nat} {R : Recording}
    (enough : R.entries.length < fuel) (rounds : Nat) :
    ∀ {cursor : Nat} {p : Player}, p.Follows R cursor → p.autoRewind = false →
      R.entries.length - cursor < rounds → ∀ s,
        loop F memory uninit c entriesPerSecond fuel rounds p s =
          (R.envelopes.drop cursor).foldlM (process F memory uninit c) s := by
  induction rounds with
  | zero => intro _ _ _ _ few; exact absurd few (Nat.not_lt_zero _)
  | succ rounds ih =>
      intro cursor p follows rewinds few s
      have length := Recording.length_envelopes R
      by_cases inside : cursor < R.entries.length
      · obtain ⟨result, p', got, returned, follows', same⟩ :=
          follows.getNext_spec uninit entriesPerSecond enough
        rw [rewinds] at returned follows' same
        have next : replayNext R.envelopes false cursor =
            (some R.entries[cursor].2, cursor + 1) := by
          rw [replayNext, Player.getElem_envelopes inside]
        rw [next] at returned follows'
        have more : p.hasMoreData = true := (follows.hasMoreData_iff rewinds).mpr inside.ne
        have drops : R.envelopes.drop cursor =
            R.entries[cursor].2 :: R.envelopes.drop (cursor + 1) := by
          rw [List.drop_eq_getElem_cons (by omega)]
          exact congrArg (· :: _) (List.getElem_map _)
        obtain ⟨found, e⟩ := result
        cases found with
        | false => cases returned
        | true =>
            obtain rfl := Option.some.inj returned
            rw [loop, if_pos more, got, drops, List.foldlM_cons]
            simp only [Option.bind_eq_bind, Option.bind_some, if_true]
            congr 1
            funext s'
            exact ih follows' same (by omega) s'
      · have atEnd : cursor = R.entries.length := le_antisymm follows.cursor_le (not_lt.mp inside)
        have noData : ¬ p.hasMoreData = true :=
          fun more => (follows.hasMoreData_iff rewinds).mp more atEnd
        rw [loop, if_neg noData, List.drop_of_length_le (by omega)]
        rfl

/-- **The files at the end.** On the file of any envelopes and an incomplete tail, the tool ends,
and for each data type of the specification and each sender stamp with an envelope, there is a file
with the header, and with one line for each of the envelopes in the order of their sample time
stamps: its time stamps and the values of the message that is extracted from it with the compiled
type. Only the first of these lines is cut off where the values contain the end of a line. All other
files are as they were. After no round more than ten megabytes are kept for a file. -/
theorem rec2csv_eq (F : FloatFormat) (memory : Nat) (uninit : Nat → Byte) (c : EnvelopeConverter)
    (entriesPerSecond : Multimap Int IndexEntry → BitVec 32) {es : List Envelope.Values}
    (fits : ∀ e ∈ es, FitsFrame e) {tail : Bytes} (incomplete : IncompleteFrame tail) {fuel : Nat}
    (enough : es.length < fuel) (types : BitVec 32 → MessageType)
    (known : ∀ e ∈ es, Known memory uninit types c e) (distinct : DistinctNames c)
    (files : Bytes → Option Bytes) :
    (∃ files', rec2csv F memory uninit c entriesPerSecond fuel (serializeEnvelopes es ++ tail) files =
        some files' ∧
      (∀ e ∈ es, ∀ name, filenameOf c e = some name → files' (csvFile name) =
        some (textOf F uninit types ((replayOrder es).filter fun e' =>
          Envelope.dataType e' = Envelope.dataType e ∧
            Envelope.senderStamp e' = Envelope.senderStamp e))) ∧
      ∀ file, (∀ e ∈ es, ∀ name, filenameOf c e = some name → csvFile name ≠ file) →
        files' file = files file) ∧
      ∀ done, done <+: replayOrder es →
        ∃ s, done.foldlM (process F memory uninit c) (initial files) = some s ∧ s.Bounded := by
  have knownInOrder : ∀ e ∈ replayOrder es, Known memory uninit types c e :=
    fun e mem => known e ((replayOrder_perm es).mem_iff.mp mem)
  refine ⟨?_, fun done isPrefix => ?_⟩
  · obtain ⟨p, constructed, follows, rewinds⟩ := Player.follows_of_construct uninit
      entriesPerSecond fits incomplete enough false
    obtain ⟨s, ran, inv, -⟩ := exists_run F uninit files distinct knownInOrder
    have length := length_recordingOf es tail fits
    have looped := loop_eq F memory uninit c entriesPerSecond (length.trans_lt enough) fuel follows
      rewinds (by omega) (initial files)
    rw [List.drop_zero, envelopes_recordingOf, ran] at looped
    refine ⟨s.fileWriter.files, ?_, fun e mem name isName => ?_, fun file other => ?_⟩
    · rw [rec2csv, constructed]
      simp only [Option.bind_eq_bind, Option.bind_some, looped, Option.pure_def]
    · have found := (inv.filenames (CluonFilter.key e) name).mpr
        ⟨e, (replayOrder_perm es).mem_iff.mpr mem, rfl, isName⟩
      rw [(inv.consistent.settled_fileWriter found).files_eq,
        inv.consistent.content_fileWriter found, inv.content _ _ found]
      simp only [key_eq_iff]
    · refine (inv.consistent.files_fileWriter fun k n found => ?_).trans
        (inv.others file fun k n found => ?_)
      all_goals
        obtain ⟨e, mem, -, isName⟩ := (inv.filenames k n).mp found
        exact other e ((replayOrder_perm es).mem_iff.mp mem) n isName
  · obtain ⟨s, ran, -, bounded⟩ := exists_run F uninit files distinct
      fun e mem => knownInOrder e (isPrefix.subset mem)
    exact ⟨s, ran, bounded⟩

/-- A time stamp in an envelope. -/
def exampleEnvelope (seconds : BitVec 32) : Envelope.Values :=
  EnvelopeConverter.envelopeFor 12 (ToProtoVisitor.encodedData TimeStamp (TimeStamp.of seconds 0)) 7
    (TimeStamp.of seconds 0)

theorem rec2csv_eq_timeStamp :
    let c := EnvelopeConverter.exampleConverter
    let F := FromJSONVisitor.noFloats
    let es := [exampleEnvelope 2, exampleEnvelope 1]
    (∃ files', rec2csv F 100 (fun _ => 0) c (fun _ => 1) 3 (serializeEnvelopes es ++ [0x0D])
          (fun _ => none) = some files' ∧
      (∀ e ∈ es, ∀ name, filenameOf c e = some name → files' (csvFile name) =
        some (textOf F (fun _ => 0) (fun _ => TimeStamp) ((replayOrder es).filter fun e' =>
          Envelope.dataType e' = Envelope.dataType e ∧
            Envelope.senderStamp e' = Envelope.senderStamp e))) ∧
      ∀ file, (∀ e ∈ es, ∀ name, filenameOf c e = some name → csvFile name ≠ file) →
        files' file = none) ∧
      ∀ done, done <+: replayOrder es →
        ∃ s, done.foldlM (process F 100 (fun _ => 0) c) (initial fun _ => none) = some s ∧
          s.Bounded := by
  have small (seconds : BitVec 32) :
      (ToProtoVisitor.encodedData TimeStamp (TimeStamp.of seconds 0)).length ≤ 100 := by
    rw [ToProtoVisitor.encodedData_eq]
    exact (length_timeStamp_le _).trans (by norm_num)
  have fits (seconds : BitVec 32) : FitsFrame (exampleEnvelope seconds) :=
    fitsFrame_of_length ((small seconds).trans_lt (by norm_num))
  have known (seconds : BitVec 32) : Known 100 (fun _ => 0) (fun _ => TimeStamp)
      EnvelopeConverter.exampleConverter (exampleEnvelope seconds) := by
    obtain ⟨mm, knows⟩ := EnvelopeConverter.knows_timeStamp
    refine ⟨fun found => ?_, ?_, EnvelopeConverter.reserves_of_encodedData knows
      (m := TimeStamp.of seconds 0) rfl rfl (length_encodedData_timeStamp _) (small seconds) _⟩
    · obtain rfl := Option.some.inj (knows.found.symm.trans found)
      exact knows
    · exact ⟨MessageParser.isName_asciiBytes rfl rfl, MessageParser.isName_asciiBytes rfl rfl,
        trivial⟩
  have distinct : DistinctNames EnvelopeConverter.exampleConverter := by
    intro id id' mm mm' found found' _
    have only {id mm} (found : EnvelopeConverter.exampleConverter.scopeOfMetaMessages.find id =
        some mm) : id = 12 :=
      congrArg Prod.fst (List.mem_singleton.mp (KeyValueMap.mem_of_find found))
    rw [only found, only found']
  exact rec2csv_eq FromJSONVisitor.noFloats 100 (fun _ => 0) _ (fun _ => 1)
    (by simp [fits]) incompleteFrame_magic (Nat.lt_succ_self 2) (fun _ => TimeStamp)
    (List.forall_mem_cons.mpr ⟨known 2, List.forall_mem_singleton.mpr (known 1)⟩) distinct
    fun _ => none

end Rec2CSV

end Cluon
