import CpuTrace.Log.Reader
import CpuTrace.Proofs.Emission
import Mathlib

/-!
# The layout of a log

The writer's side of an execution log, and what reading makes of it. A `LogFile` says what a log
holds: the chunks with their messages and their compressed form, the numbers of the header and of
the directory that the reader passes over, and whether the directory ends with a mark.
`LogFile.bytes` puts all of it into one file.

The main statement is `read_logFile`: reading gives back the messages of all chunks, in order, for
either form of the directory. It is put together from what each part of the reader makes of the
part of the file that was written for it: numbers (`numberAt_append`), the directory
(`chunkStarts_directoryBytes`), where the chunks lie (`chunkBounds_directory`), the entries of one
chunk (`entries_flatMap`), and the chunks one after the other (`forEach_chunks`).
-/

namespace CpuTrace.Log

open Wire (Bytes Message MessageKind)

/-! ## Writing -/

/-- A number in a fixed number of bytes, lowest first; what does not fit is cut off. -/
def littleEndianBytes : (width n : Nat) → Bytes
  | 0, _ => []
  | width + 1, n => UInt8.ofNat n :: littleEndianBytes width (n / 256)

/-- An entry of a chunk: the length of its body, and the body. -/
def entryBytes (body : Bytes) : Bytes := littleEndianBytes 4 body.length ++ body

/-- A chunk of a log. -/
structure Chunk where
  /-- its messages, in wire format -/
  bodies : List Bytes
  /-- its compressed form -/
  stream : Bytes
  /-- the count of instructions that the directory gives for it -/
  startInstr : Nat
  /-- the count of entries that the directory gives for it -/
  numEntries : Nat

/-- What a chunk is before it is compressed. -/
def Chunk.payload (c : Chunk) : Bytes := c.bodies.flatMap entryBytes

/-- A chunk as a writer leaves it: its bodies are messages whose lengths fit their field, and the
stream stands for the payload. -/
structure Chunk.IsWritten (c : Chunk) : Prop where
  /-- every body can be read -/
  parses : ∀ body ∈ c.bodies, ∃ m, Message.parse .logEntry body = .ok m
  /-- the length of every body fits in four bytes -/
  fits : ∀ body ∈ c.bodies, body.length < 2 ^ 32
  /-- the stream is a compressed form of the payload -/
  stream : Deflate.decompress c.stream = some c.payload

/-- An entry of the directory. -/
structure DirectoryEntry where
  /-- a count of instructions -/
  startInstr : Nat
  /-- where the chunk starts -/
  position : Nat
  /-- a count of entries -/
  numEntries : Nat

/-- An entry of the directory in bytes. -/
def DirectoryEntry.bytes (e : DirectoryEntry) : Bytes :=
  littleEndianBytes 8 e.startInstr ++ littleEndianBytes 8 e.position ++
    littleEndianBytes 8 e.numEntries

/-- The entries of chunks that lie one after the other from a position on. -/
def directoryEntries (position : Nat) : List Chunk → List DirectoryEntry
  | [] => []
  | c :: cs =>
    ⟨c.startInstr, position, c.numEntries⟩ :: directoryEntries (position + c.stream.length) cs

/-- What a log file holds. -/
structure LogFile where
  /-- the version in the header -/
  version : Nat
  /-- the field after the version -/
  reserved₁ : Nat
  /-- the field after the position of the directory -/
  reserved₂ : Nat
  /-- the size of a chunk that the header announces -/
  chunkSize : Nat
  /-- the chunks -/
  chunks : List Chunk
  /-- the two counts of an entry that marks the end of the directory, if it has one -/
  endMark : Option (Nat × Nat)

namespace LogFile

variable (f : LogFile)

/-- The compressed chunks. -/
def streams : Bytes := f.chunks.flatMap Chunk.stream

/-- Where the directory starts: after the header and the chunks. -/
def directoryPosition : Nat := 24 + f.streams.length

/-- The directory: an entry for each chunk, and the mark. -/
def directory : List DirectoryEntry :=
  directoryEntries 24 f.chunks ++
    f.endMark.toList.map fun counts => ⟨counts.1, f.directoryPosition, counts.2⟩

/-- The header. -/
def header : Bytes :=
  littleEndianBytes 4 f.version ++ littleEndianBytes 4 f.reserved₁ ++
    littleEndianBytes 8 f.directoryPosition ++ littleEndianBytes 4 f.reserved₂ ++
    littleEndianBytes 4 f.chunkSize

/-- The whole file. -/
def bytes : Bytes :=
  f.header ++ f.streams ++ littleEndianBytes 4 f.directory.length ++
    f.directory.flatMap DirectoryEntry.bytes

end LogFile

/-! ## Numbers -/

@[simp] theorem length_littleEndianBytes (width n : Nat) :
    (littleEndianBytes width n).length = width := by
  induction width generalizing n with
  | zero => rfl
  | succ width ih => rw [littleEndianBytes, List.length_cons, ih]

/-- A number that fits its bytes is read back from them. -/
theorem littleEndian_littleEndianBytes {width n : Nat} (h : n < 256 ^ width) :
    littleEndian (littleEndianBytes width n) = n := by
  induction width generalizing n with
  | zero =>
    rw [Nat.pow_zero] at h
    rw [Nat.lt_one_iff.mp h]
    rfl
  | succ width ih =>
    rw [Nat.pow_succ] at h
    have hrest : n / 256 < 256 ^ width := Nat.div_lt_of_lt_mul (by omega)
    rw [littleEndianBytes, littleEndian, ih hrest, UInt8.toNat_ofNat']
    omega

/-- A part of a file is found where the parts before it end. -/
theorem slice_append (before part after : Bytes) :
    slice (before ++ part ++ after) before.length part.length = part := by
  rw [slice, List.append_assoc, List.drop_left, List.take_left]

/-- A number that stands in a file is cut out again. -/
theorem slice_littleEndianBytes (before after : Bytes) (width n : Nat) :
    slice (before ++ littleEndianBytes width n ++ after) before.length width =
      littleEndianBytes width n := by
  have h := slice_append before (littleEndianBytes width n) after
  rwa [length_littleEndianBytes] at h

/-- **A number is read back** from where it has been written. -/
theorem numberAt_append (before after : Bytes) {width n : Nat} (hn : n < 256 ^ width) :
    numberAt (before ++ littleEndianBytes width n ++ after) before.length width = .ok n := by
  simp only [numberAt, slice_littleEndianBytes, length_littleEndianBytes, if_true,
    littleEndian_littleEndianBytes hn]

/-! ## The directory -/

@[simp] theorem DirectoryEntry.length_bytes (e : DirectoryEntry) :
    e.bytes.length = recordLength := by
  simp [bytes, recordLength]

/-- The starts of the chunks are read from as many entries as the directory counts. -/
theorem chunkStarts_directoryBytes {es : List DirectoryEntry}
    (h : ∀ e ∈ es, e.position < 256 ^ 8) :
    chunkStarts es.length (es.flatMap DirectoryEntry.bytes) =
      .ok (es.map DirectoryEntry.position) := by
  induction es with
  | nil => rfl
  | cons e es ih =>
    obtain ⟨he, hes⟩ := List.forall_mem_cons.mp h
    have hlen : ¬ (e.bytes ++ es.flatMap DirectoryEntry.bytes).length < recordLength := by
      rw [List.length_append, e.length_bytes]
      omega
    have hdrop : (e.bytes ++ es.flatMap DirectoryEntry.bytes).drop recordLength =
        es.flatMap DirectoryEntry.bytes := List.drop_left' e.length_bytes
    have hslice : slice (e.bytes ++ es.flatMap DirectoryEntry.bytes) 8 8 =
        littleEndianBytes 8 e.position := by
      have hpart := slice_littleEndianBytes (littleEndianBytes 8 e.startInstr)
        (littleEndianBytes 8 e.numEntries ++ es.flatMap DirectoryEntry.bytes) 8 e.position
      simpa [DirectoryEntry.bytes] using hpart
    rw [List.flatMap_cons, List.length_cons, chunkStarts, if_neg hlen, hdrop, ih hes, hslice,
      littleEndian_littleEndianBytes he, List.map_cons]

/-- Where chunks lie that follow one another from a position on, and where the last one ends. -/
def positions (start : Nat) : List Chunk → List Nat
  | [] => [start]
  | c :: cs => start :: positions (start + c.stream.length) cs

theorem positions_eq_append (start : Nat) (cs : List Chunk) :
    positions start cs = (directoryEntries start cs).map DirectoryEntry.position ++
      [start + (cs.flatMap Chunk.stream).length] := by
  induction cs generalizing start with
  | nil => rfl
  | cons c cs ih =>
    rw [positions, ih, directoryEntries, List.map_cons, List.flatMap_cons, List.length_append,
      Nat.add_assoc, List.cons_append]

/-- No entry of the directory points behind the end of the chunks. -/
theorem position_le_of_mem {start : Nat} {cs : List Chunk} {e : DirectoryEntry}
    (h : e ∈ directoryEntries start cs) :
    e.position ≤ start + (cs.flatMap Chunk.stream).length := by
  induction cs generalizing start with
  | nil => cases h
  | cons c cs ih =>
    rw [List.flatMap_cons, List.length_append]
    rcases List.mem_cons.mp h with rfl | h
    · exact Nat.le_add_right _ _
    · have := ih h
      omega

/-- The last chunk starts before the directory, unless it is empty. -/
theorem position_lt_of_getLast? {start : Nat} {cs : List Chunk} {e : DirectoryEntry}
    (hcs : ∀ c ∈ cs, c.stream ≠ []) (h : e ∈ (directoryEntries start cs).getLast?) :
    e.position < start + (cs.flatMap Chunk.stream).length := by
  induction cs generalizing start with
  | nil => cases h
  | cons c cs ih =>
    obtain ⟨hc, hcs⟩ := List.forall_mem_cons.mp hcs
    have hpos : 0 < c.stream.length := List.length_pos_of_ne_nil hc
    rw [List.flatMap_cons, List.length_append]
    cases cs with
    | nil =>
      obtain rfl : _ = e := Option.some.inj h
      exact Nat.lt_add_of_pos_right (by simpa using hpos)
    | cons c' cs =>
      have := ih hcs (by simpa [directoryEntries] using h)
      omega

/-- **Where the chunks lie.** Whether the directory ends with a mark or not, the chunks lie between
the positions at which they were written. A directory without a mark is not taken for one with a
mark, since the last chunk is not empty. -/
theorem chunkBounds_directory (f : LogFile) (hf : ∀ c ∈ f.chunks, c.stream ≠ []) :
    chunkBounds f.directoryPosition (f.directory.map DirectoryEntry.position) =
      positions 24 f.chunks := by
  rw [positions_eq_append, LogFile.directory, List.map_append]
  rcases f.endMark with _ | counts
  · have hlast : ¬ ((directoryEntries 24 f.chunks).map DirectoryEntry.position).getLast? =
        some f.directoryPosition := by
      rw [List.getLast?_map]
      intro h
      obtain ⟨e, he, hpos⟩ := Option.map_eq_some_iff.mp h
      exact Nat.ne_of_lt (position_lt_of_getLast? hf he) hpos
    simp only [Option.toList_none, List.map_nil, List.append_nil]
    rw [chunkBounds, if_neg hlast]
    rfl
  · simp only [Option.toList_some, List.map_cons, List.map_nil]
    rw [chunkBounds, if_pos List.getLast?_concat]
    rfl

/-! ## Messages -/

/-- An emission gives the messages of some bodies, all of them and nothing else. -/
structure Gives (x : Emission Fault Message) (bodies : List Bytes) : Prop where
  /-- it runs to its end -/
  fault : x.fault = none
  /-- its items are what the bodies are read as -/
  items : x.items.toList.map Except.ok = bodies.map (Message.parse .logEntry)

namespace Gives

theorem nothing : Gives .nothing [] := ⟨rfl, rfl⟩

theorem one {body : Bytes} {m : Message} (h : Message.parse .logEntry body = .ok m) :
    Gives (.one m) [body] := ⟨rfl, by simp [Emission.one, h]⟩

/-- What gives some messages and then others gives all of them. -/
theorem andThen {x : Emission Fault Message} {y : Unit → Emission Fault Message}
    {bs cs : List Bytes} (hx : Gives x bs) (hy : Gives (y ()) cs) :
    Gives (x.andThen y) (bs ++ cs) := by
  rw [Emission.andThen_of_none hx.fault]
  refine ⟨hy.fault, ?_⟩
  rw [Array.toList_append, List.map_append, hx.items, hy.items, List.map_append]

end Gives

/-- One entry, and what follows it. -/
theorem entries_cons {body rest : Bytes} {m : Message} (hfits : body.length < 2 ^ 32)
    (hm : Message.parse .logEntry body = .ok m) :
    entries (entryBytes body ++ rest) = (Emission.one m).andThen fun _ => entries rest := by
  have hlen : (littleEndianBytes 4 body.length).length = 4 := length_littleEndianBytes ..
  obtain ⟨b, bs, hcons⟩ : ∃ b bs, entryBytes body ++ rest = b :: bs := ⟨_, _, rfl⟩
  have hlong : ¬ (b :: bs).length < 4 := by
    rw [← hcons, entryBytes, List.length_append, List.length_append, hlen]
    omega
  have htake : (b :: bs).take 4 = littleEndianBytes 4 body.length := by
    rw [← hcons, entryBytes, List.append_assoc, List.take_left' hlen]
  have hdrop : (b :: bs).drop 4 = body ++ rest := by
    rw [← hcons, entryBytes, List.append_assoc, List.drop_left' hlen]
  have hnumber := littleEndian_littleEndianBytes (show body.length < 256 ^ 4 from hfits)
  rw [hcons, entries, if_neg hlong]
  simp only [htake, hdrop, hnumber, List.take_left, List.drop_left, hm]

/-- **Entries.** The entries of a payload are its messages. -/
theorem entries_flatMap {bodies : List Bytes}
    (hparse : ∀ body ∈ bodies, ∃ m, Message.parse .logEntry body = .ok m)
    (hfits : ∀ body ∈ bodies, body.length < 2 ^ 32) :
    Gives (entries (bodies.flatMap entryBytes)) bodies := by
  induction bodies with
  | nil =>
    rw [List.flatMap_nil, entries]
    exact .nothing
  | cons body bodies ih =>
    obtain ⟨⟨m, hm⟩, hparse⟩ := List.forall_mem_cons.mp hparse
    obtain ⟨hbody, hfits⟩ := List.forall_mem_cons.mp hfits
    rw [List.flatMap_cons, entries_cons hbody hm]
    exact (Gives.one hm).andThen (ih hparse hfits)

/-- A chunk that lies between two positions of a file is read as its messages. -/
theorem chunkEntries_append {c : Chunk} (h : c.IsWritten) (before after : Bytes) :
    Gives (chunkEntries (before ++ c.stream ++ after) before.length
      (before.length + c.stream.length)) c.bodies := by
  have hbytes : chunkBytes (before ++ c.stream ++ after) before.length
      (before.length + c.stream.length) = c.stream := by
    have hle : ¬ before.length + c.stream.length < before.length := by omega
    rw [chunkBytes, if_neg hle, Nat.add_sub_cancel_left, slice_append]
  simp only [chunkEntries, hbytes, h.stream]
  exact entries_flatMap h.parses h.fits

/-- **Chunks.** Chunks that follow one another are read one after the other. -/
theorem forEach_chunks {cs : List Chunk} (hcs : ∀ c ∈ cs, c.IsWritten) (after : Bytes) :
    ∀ before : Bytes,
      Gives (.forEach ((positions before.length cs).zip (positions before.length cs).tail) fun b =>
        chunkEntries (before ++ cs.flatMap Chunk.stream ++ after) b.1 b.2)
        (cs.flatMap Chunk.bodies) := by
  induction cs with
  | nil => intro before; exact .nothing
  | cons c cs ih =>
    intro before
    obtain ⟨hc, hcs⟩ := List.forall_mem_cons.mp hcs
    -- the positions of the other chunks start where this chunk ends
    have hzip : (positions before.length (c :: cs)).zip (positions before.length (c :: cs)).tail =
        (before.length, before.length + c.stream.length) ::
          (positions (before ++ c.stream).length cs).zip
            (positions (before ++ c.stream).length cs).tail := by
      rw [List.length_append]
      cases cs <;> rfl
    have hfile : before ++ (c :: cs).flatMap Chunk.stream ++ after =
        before ++ c.stream ++ cs.flatMap Chunk.stream ++ after := by
      rw [List.flatMap_cons, List.append_assoc before c.stream]
    rw [hzip, Emission.forEach_cons, hfile, List.flatMap_cons]
    refine Gives.andThen ?_ (ih hcs (before ++ c.stream))
    rw [List.append_assoc (before ++ c.stream)]
    exact chunkEntries_append hc before _

/-! ## Files -/

@[simp] theorem LogFile.length_header (f : LogFile) : f.header.length = 24 := by
  simp [header]

/-- A compressed stream is not empty. -/
theorem Chunk.IsWritten.stream_ne_nil {c : Chunk} (h : c.IsWritten) : c.stream ≠ [] := by
  intro hnil
  have hs := h.stream
  rw [hnil] at hs
  cases hs

/-- The header leads to the directory. -/
theorem directoryStart_bytes (f : LogFile) (hpos : f.directoryPosition < 2 ^ 64) :
    directoryStart f.bytes = .ok f.directoryPosition := by
  have hlong : ¬ f.bytes.length < recordLength := by
    simp only [LogFile.bytes, List.length_append, f.length_header, recordLength]
    omega
  have hnumber := numberAt_append
    (littleEndianBytes 4 f.version ++ littleEndianBytes 4 f.reserved₁)
    (littleEndianBytes 4 f.reserved₂ ++ littleEndianBytes 4 f.chunkSize ++ f.streams ++
      littleEndianBytes 4 f.directory.length ++ f.directory.flatMap DirectoryEntry.bytes)
    (show f.directoryPosition < 256 ^ 8 from hpos)
  rw [directoryStart, if_neg hlong]
  simpa [LogFile.bytes, LogFile.header] using hnumber

/-- The reader finds the chunks of a file where they were written. -/
theorem bounds_bytes (f : LogFile) (hne : f.chunks ≠ []) (hf : ∀ c ∈ f.chunks, c.IsWritten)
    (hpos : f.directoryPosition < 2 ^ 64) (hcount : f.directory.length < 2 ^ 32) :
    bounds f.bytes = .ok (positions 24 f.chunks) := by
  have hbefore : (f.header ++ f.streams).length = f.directoryPosition := by
    rw [List.length_append, f.length_header]
    rfl
  have hnumber : numberAt f.bytes f.directoryPosition 4 = .ok f.directory.length := by
    have h := numberAt_append (f.header ++ f.streams)
      (f.directory.flatMap DirectoryEntry.bytes)
      (show f.directory.length < 256 ^ 4 from hcount)
    rwa [hbefore] at h
  have hdrop : f.bytes.drop (f.directoryPosition + 4) =
      f.directory.flatMap DirectoryEntry.bytes :=
    List.drop_left' (by rw [List.length_append, hbefore, length_littleEndianBytes])
  have hfit : ∀ e ∈ f.directory, e.position < 256 ^ 8 := by
    intro e he
    refine Nat.lt_of_le_of_lt ?_ hpos
    rcases List.mem_append.mp he with he | he
    · exact position_le_of_mem he
    · obtain ⟨counts, -, rfl⟩ := List.mem_map.mp he
      exact Nat.le_refl _
  obtain ⟨n, hn⟩ : ∃ n, f.directory.length = n + 1 := by
    obtain ⟨c, cs, hcs⟩ := List.exists_cons_of_ne_nil hne
    exact ⟨_, by rw [LogFile.directory, hcs]; rfl⟩
  have hstarts := chunkStarts_directoryBytes hfit
  rw [hn] at hnumber hstarts
  simp only [bounds, directoryStart_bytes f hpos, hnumber, hdrop, hstarts,
    chunkBounds_directory f fun c hc => (hf c hc).stream_ne_nil]

/-- **Reading undoes writing.** A log of at least one chunk whose positions and counts fit their
fields is read as the messages of its chunks, in order, with none lost, repeated or added, whatever
the other numbers in it are and whether its directory ends with a mark or not. -/
theorem read_logFile (f : LogFile) (hne : f.chunks ≠ []) (hf : ∀ c ∈ f.chunks, c.IsWritten)
    (hpos : f.directoryPosition < 2 ^ 64) (hcount : f.directory.length < 2 ^ 32) :
    (read f.bytes).fault = none ∧
      (read f.bytes).items.toList.map Except.ok =
        (f.chunks.flatMap Chunk.bodies).map (Message.parse .logEntry) := by
  have hchunks := forEach_chunks hf
    (littleEndianBytes 4 f.directory.length ++ f.directory.flatMap DirectoryEntry.bytes) f.header
  rw [f.length_header, ← List.append_assoc] at hchunks
  rw [read, bounds_bytes f hne hf hpos hcount]
  exact ⟨hchunks.fault, hchunks.items⟩

/-- A log of two chunks, one compressed with a code and one stored, whose directory ends with a
mark. -/
def twoChunkLog : LogFile where
  version := 2
  reserved₁ := 0
  reserved₂ := 0
  chunkSize := 65536
  chunks :=
    [⟨[[8, 5, 16, 1], [8, 9, 16, 2]],
        [120, 218, 99, 97, 96, 96, 224, 96, 21, 96, 100, 1, 209, 156, 2, 76, 0, 2, 13, 0, 74], 1, 2⟩,
      ⟨[[8, 172, 2, 16, 3]],
        [120, 1, 1, 9, 0, 246, 255, 5, 0, 0, 0, 8, 172, 2, 16, 3, 3, 55, 0, 207], 3, 1⟩]
  endMark := some (3, 0)

theorem twoChunkLog_isWritten : ∀ c ∈ twoChunkLog.chunks, c.IsWritten := by
  have hparse : ∀ c ∈ twoChunkLog.chunks, ∀ body ∈ c.bodies,
      (Message.parse .logEntry body).toOption.isSome = true := by decide +kernel
  have hfits : ∀ c ∈ twoChunkLog.chunks, ∀ body ∈ c.bodies, body.length < 2 ^ 32 := by decide
  have hstream : ∀ c ∈ twoChunkLog.chunks,
      Deflate.decompress c.stream = some c.payload := by decide +kernel
  intro c hc
  refine ⟨fun body hbody => ?_, hfits c hc, hstream c hc⟩
  have hsome := hparse c hc body hbody
  rcases h : Message.parse .logEntry body with e | m
  · rw [h] at hsome
    cases hsome
  · exact ⟨m, rfl⟩

theorem read_twoChunkLog :
    (twoChunkLog.chunks ≠ [] ∧ (∀ c ∈ twoChunkLog.chunks, c.IsWritten) ∧
        twoChunkLog.directoryPosition < 2 ^ 64 ∧ twoChunkLog.directory.length < 2 ^ 32) ∧
      (read twoChunkLog.bytes).fault = none ∧
      (read twoChunkLog.bytes).items.toList.map Except.ok =
        (twoChunkLog.chunks.flatMap Chunk.bodies).map (Message.parse .logEntry) :=
  ⟨⟨by decide, twoChunkLog_isWritten, by decide, by decide⟩,
    read_logFile twoChunkLog (by decide) twoChunkLog_isWritten (by decide) (by decide)⟩

end CpuTrace.Log
