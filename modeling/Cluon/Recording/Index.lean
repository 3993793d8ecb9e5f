import Cluon.Recording.Player

/-!
# The index of a recording

A recording is a file together with the positions and values of its envelopes in the order
of their replay. Every envelope is in the file at its position (`Recording.reads`), and no
position is repeated. The file made of the frames of some envelopes and an incomplete tail
is such a recording with the stably sorted envelopes (`recordingOf`), and the loop of
`initializeIndex` builds the index of exactly this recording (`initializeIndex_recordingOf`).
-/

set_option autoImplicit false

namespace Cluon

open Library InputStream

/-- A file with the positions of the envelopes in it, in the order of their replay. -/
structure Recording where
  file : Bytes
  entries : List (Nat × Envelope.Values)
  reads : ∀ x ∈ entries, FitsFrame x.2 ∧
    ∃ before after, file = before ++ (serializeEnvelope x.2 ++ after) ∧ before.length = x.1
  distinct : (entries.map Prod.fst).Nodup

namespace Recording

/-- The index a player has of the recording. -/
def index (R : Recording) : Multimap Int IndexEntry :=
  R.entries.map fun x => (sampleTime x.2, ⟨sampleTime x.2, x.1⟩)

/-- The envelopes in the order of their replay. -/
def envelopes (R : Recording) : List Envelope.Values := R.entries.map Prod.snd

@[simp] theorem length_index (R : Recording) : R.index.length = R.entries.length := by
  simp [index]

@[simp] theorem length_envelopes (R : Recording) : R.envelopes.length = R.entries.length := by
  simp [envelopes]

/-- A stream on the file of the recording in which the position can be moved. -/
structure Opened (R : Recording) (is : InputStream) : Prop where
  data_eq : is.data = R.file
  seekable : is.failbit = false

/-- **Every envelope of the index is read from its position.** -/
theorem extractEnvelope_seekg (R : Recording) (uninit : Nat → Byte)
    {x : Nat × Envelope.Values} (hx : x ∈ R.entries) {is : InputStream} (opened : R.Opened is) :
    (extractEnvelope uninit (is.seekg x.1)).1 = (true, x.2) ∧
      R.Opened (extractEnvelope uninit (is.seekg x.1)).2 := by
  obtain ⟨fits, before, after, split, position⟩ := R.reads x hx
  have moved : is.seekg x.1 = { is with eofbit := false, pos := x.1 } := by
    rw [seekg, opened.seekable]
    rfl
  have good : (is.seekg x.1).good := by
    rw [moved]
    simp [InputStream.good, opened.seekable]
  have rest : (is.seekg x.1).rest = serializeEnvelope x.2 ++ after := by
    rw [moved, InputStream.rest, opened.data_eq, split, ← position, List.drop_left]
  rw [extractEnvelope_frame uninit fits good rest]
  refine ⟨rfl, ?_, ?_⟩
  · rw [data_advance, moved]
    exact opened.data_eq
  · rw [moved]
    exact opened.seekable

end Recording

/-! ## Recordings made of frames -/

/-- Envelopes with the positions of their frames, when the first frame is at the given
position. -/
def withPositions : Nat → List Envelope.Values → List (Nat × Envelope.Values)
  | _, [] => []
  | position, e :: es =>
      (position, e) :: withPositions (position + (serializeEnvelope e).length) es

theorem map_snd_withPositions (position : Nat) (es : List Envelope.Values) :
    (withPositions position es).map Prod.snd = es := by
  induction es generalizing position with
  | nil => rfl
  | cons e es ih => rw [withPositions, List.map_cons, ih]

/-- Every frame is where its position says. -/
theorem split_of_mem_withPositions {x : Nat × Envelope.Values} (es : List Envelope.Values)
    (before : Bytes) (hx : x ∈ withPositions before.length es) :
    x.2 ∈ es ∧ before.length ≤ x.1 ∧ ∃ between after,
      serializeEnvelopes es = between ++ (serializeEnvelope x.2 ++ after) ∧
        before.length + between.length = x.1 := by
  induction es generalizing before with
  | nil => simp [withPositions] at hx
  | cons e es ih =>
      rw [withPositions, List.mem_cons] at hx
      rcases hx with rfl | hx
      · exact ⟨List.mem_cons_self, le_rfl, [], serializeEnvelopes es, rfl, rfl⟩
      · rw [← List.length_append] at hx
        obtain ⟨mem, le, between, after, split, position⟩ := ih _ hx
        rw [List.length_append] at le position
        refine ⟨List.mem_cons_of_mem e mem, by omega, serializeEnvelope e ++ between, after,
          ?_, ?_⟩
        · rw [List.append_assoc, ← split]
          rfl
        · rw [List.length_append]
          omega

theorem length_serializeEnvelope_pos (e : Envelope.Values) :
    0 < (serializeEnvelope e).length := by
  simp [serializeEnvelope]

theorem nodup_withPositions (position : Nat) (es : List Envelope.Values) :
    ((withPositions position es).map Prod.fst).Nodup := by
  have increasing : ∀ (es : List Envelope.Values) (position : Nat),
      ∀ x ∈ withPositions position es, position ≤ x.1 := by
    intro es
    induction es with
    | nil => simp [withPositions]
    | cons e es ih =>
        intro position x hx
        rcases List.mem_cons.mp hx with rfl | hx
        · exact le_rfl
        · exact (Nat.le_add_right _ _).trans (ih _ x hx)
  induction es generalizing position with
  | nil => simp [withPositions]
  | cons e es ih =>
      rw [withPositions, List.map_cons, List.nodup_cons]
      refine ⟨fun repeated => ?_, ih _⟩
      obtain ⟨x, hx, same⟩ := List.mem_map.mp repeated
      have later := increasing es _ x hx
      have positive := length_serializeEnvelope_pos e
      omega

/-- The order in which the envelopes of a recording are replayed. -/
def replayOrder (es : List Envelope.Values) : List Envelope.Values :=
  Multimap.sortBy sampleTime es

/-- The recording whose file consists of the frames of some envelopes and a tail. -/
def recordingOf (es : List Envelope.Values) (tail : Bytes) (fits : ∀ e ∈ es, FitsFrame e) :
    Recording where
  file := serializeEnvelopes es ++ tail
  entries := Multimap.sortBy (fun x => sampleTime x.2) (withPositions 0 es)
  reads := by
    intro x hx
    have mem : x ∈ withPositions ([] : Bytes).length es := (Multimap.sortBy_perm _ _).mem_iff.mp hx
    obtain ⟨inList, _, before, after, split, position⟩ := split_of_mem_withPositions es [] mem
    refine ⟨fits x.2 inList, before, after ++ tail, ?_, ?_⟩
    · rw [split]
      simp only [List.append_assoc]
    · simpa using position
  distinct := by
    have perm := (Multimap.sortBy_perm (fun x : Nat × Envelope.Values => sampleTime x.2)
      (withPositions 0 es)).map Prod.fst
    exact perm.nodup_iff.mpr (nodup_withPositions 0 es)

theorem envelopes_recordingOf (es : List Envelope.Values) (tail : Bytes)
    (fits : ∀ e ∈ es, FitsFrame e) : (recordingOf es tail fits).envelopes = replayOrder es := by
  have mapped := Multimap.map_sortBy (fun x : Nat × Envelope.Values => sampleTime x.2) sampleTime
    Prod.snd (fun _ => rfl) (withPositions 0 es)
  rwa [map_snd_withPositions] at mapped

theorem length_recordingOf (es : List Envelope.Values) (tail : Bytes)
    (fits : ∀ e ∈ es, FitsFrame e) : (recordingOf es tail fits).entries.length = es.length := by
  rw [← Recording.length_envelopes, envelopes_recordingOf]
  exact (Multimap.sortBy_perm sampleTime es).length_eq

/-! ## Building the index -/

namespace Player

variable (uninit : Nat → Byte)

/-- Extracting an envelope from a good stream shortens it or spoils it. -/
theorem extractEnvelope_shortens {is : InputStream} (hg : is.good)
    (h : (extractEnvelope uninit is).2.good) :
    (extractEnvelope uninit is).2.rest.length < is.rest.length := by
  by_cases enough : 5 ≤ is.rest.length
  · have notLonger : NotLonger (is.advance 5) (extractEnvelope uninit is).2 := by
      simp only [extractEnvelope, if_pos hg, read_of_le hg enough]
      split
      · split
        · split <;> exact notLonger_read _ _
        · exact NotLonger.refl _
      · exact NotLonger.refl _
    obtain ⟨_, le⟩ := notLonger h
    rw [rest_advance, List.length_drop] at le
    omega
  · have missing : ¬ is.rest.length = 5 := by omega
    simp [extractEnvelope, hg, read_short hg (Nat.not_le.mp enough), missing] at h

theorem consumes_initializeIndexBody : Consumes (initializeIndexBody uninit) := by
  intro index is hg _ h
  have shortens := extractEnvelope_shortens uninit hg
  simp only [initializeIndexBody] at h ⊢
  split at h
  case isTrue found => rw [if_pos found]; exact shortens h
  case isFalse found => rw [if_neg found]; exact shortens h

/-- The loop inserts the envelopes in the order of their frames. -/
theorem whileGood_initializeIndexBody {tail : Bytes} (incomplete : IncompleteFrame tail)
    (es : List Envelope.Values) (fits : ∀ e ∈ es, FitsFrame e) :
    ∀ (index : Multimap Int IndexEntry) (is : InputStream), is.good →
      is.rest = serializeEnvelopes es ++ tail →
      (whileGood (initializeIndexBody uninit) index is).1 =
          ((withPositions is.pos es).map fun x =>
            (sampleTime x.2, IndexEntry.mk (sampleTime x.2) x.1)).foldl
              (fun m x => Multimap.emplace m x.1 x.2) index ∧
        (whileGood (initializeIndexBody uninit) index is).2.data = is.data := by
  induction es with
  | nil =>
      intro index is hg hr
      obtain ⟨failed, atEnd⟩ := extractEnvelope_incomplete uninit incomplete hg hr
      have round : initializeIndexBody uninit index is = (true, index, is.exhausted) := by
        simp only [initializeIndexBody, failed, atEnd, Bool.and_false, Bool.false_eq_true, if_false]
      rw [whileGood_again (consumes_initializeIndexBody uninit) hg round,
        whileGood_spoiled _ _ (good_exhausted is)]
      exact ⟨rfl, rfl⟩
  | cons e es ih =>
      intro index is hg hr
      have cons : serializeEnvelopes (e :: es) = serializeEnvelope e ++ serializeEnvelopes es := rfl
      rw [cons, List.append_assoc] at hr
      have extracted := extractEnvelope_frame uninit (fits e List.mem_cons_self) hg hr
      obtain ⟨noEof, noFail⟩ : is.eofbit = false ∧ is.failbit = false := by
        simpa [InputStream.good] using hg
      have round : initializeIndexBody uninit index is =
          (true, Multimap.emplace index (sampleTime e) ⟨sampleTime e, is.pos⟩,
            is.advance (serializeEnvelope e).length) := by
        simp [initializeIndexBody, extracted, advance, noEof, noFail, tellg]
      rw [whileGood_again (consumes_initializeIndexBody uninit) hg round]
      exact ih (fun e' he' => fits e' (List.mem_cons_of_mem e he')) _ _ (good_advance_of hg _)
        (rest_advance_append hr)

/-- **The index of the file of a recording** is the index of the recording. -/
theorem initializeIndex_recordingOf {tail : Bytes} (incomplete : IncompleteFrame tail)
    {es : List Envelope.Values} (fits : ∀ e ∈ es, FitsFrame e) (autoRewind threading : Bool) :
    ∃ recFile, recFile.data = (recordingOf es tail fits).file ∧
      (init autoRewind threading).initializeIndex uninit (some (recordingOf es tail fits).file) =
        { init autoRewind threading with
          recFile := recFile
          recFileValid := true
          index := (recordingOf es tail fits).index } := by
  obtain ⟨indexed, data⟩ := whileGood_initializeIndexBody uninit incomplete es fits []
    (ofBytes (recordingOf es tail fits).file) rfl rfl
  refine ⟨_, data, ?_⟩
  have index_eq : (whileGood (initializeIndexBody uninit) []
      (ofBytes (recordingOf es tail fits).file)).1 = (recordingOf es tail fits).index := by
    have mapped := Multimap.ofList_map (fun x : Nat × Envelope.Values =>
      IndexEntry.mk (sampleTime x.2) x.1) ((withPositions 0 es).map fun x => (sampleTime x.2, x))
    rw [Multimap.ofList_eq_map_sortBy, List.map_map, List.map_map] at mapped
    rw [indexed]
    exact mapped.symm
  simp only [initializeIndex]
  rw [← index_eq]
  rfl

end Player

end Cluon
