import CpuTrace.Proofs.LogLayout
import Mathlib

/-!
# Intact chunks of a damaged log

A log is read chunk by chunk, so damage shows no earlier than in the chunk that has it. The reader
takes very little from a file before the first chunk: where the directory is, and where the chunks
start (`HasDirectory`). Two files that have this in common may differ in all else, and have the same
chunks to read (`chunkRanges`). As long as these hold the same bytes, and the bytes are read without
a fault (`ChunkHolds`), both files give the messages of these chunks first, in order
(`messages_of_intact_chunks`). What comes after them in either file plays no part.

Chunks may lie in any order and overlap, so what is damaged is said by chunk and not by position.
-/

namespace CpuTrace.Log

open Wire (Bytes Message)

/-! ## Header and directory -/

/-- What a reader takes from the header and the directory of a file: the position of the directory
and the starts of the chunks, each in its eight bytes, and the number of chunks. -/
structure HasDirectory (file : Bytes) (position : Nat) (starts : List Nat) : Prop where
  /-- the header is complete -/
  header : recordLength ≤ file.length
  /-- the directory stands where the header says -/
  points : littleEndian (slice file 8 8) = position
  /-- it counts the chunks -/
  count : littleEndian (slice file position 4) = starts.length
  /-- it has an entry for each of them -/
  ends : position + 4 + recordLength * starts.length ≤ file.length
  /-- the entry of a chunk says where it starts -/
  starts : ∀ i, (h : i < starts.length) →
    littleEndian (slice file (position + 4 + (recordLength * i + 8)) 8) = starts.get ⟨i, h⟩

/-- Where the chunks of a directory lie: each goes up to the start of the next. -/
def chunkRanges (position : Nat) (starts : List Nat) : List (Nat × Nat) :=
  (chunkBounds position starts).zip (chunkBounds position starts).tail

theorem slice_drop (file : Bytes) (n start length : Nat) :
    slice (file.drop n) start length = slice file (n + start) length := by
  rw [slice, slice, List.drop_drop]

/-- A part that ends inside the file is complete. -/
theorem length_slice {file : Bytes} {start length : Nat} (h : start + length ≤ file.length) :
    (slice file start length).length = length := by
  rw [slice, List.length_take, List.length_drop]
  omega

theorem numberAt_of_le {file : Bytes} {start width : Nat} (h : start + width ≤ file.length) :
    numberAt file start width = .ok (littleEndian (slice file start width)) := by
  rw [numberAt]
  exact if_pos (length_slice h)

/-- The starts of chunks are read from complete entries. -/
theorem chunkStarts_of_entries {starts : List Nat} :
    ∀ {entries : Bytes}, recordLength * starts.length ≤ entries.length →
      (∀ i, (h : i < starts.length) →
        littleEndian (slice entries (recordLength * i + 8) 8) = starts.get ⟨i, h⟩) →
      chunkStarts starts.length entries = .ok starts := by
  induction starts with
  | nil => intro entries _ _; rfl
  | cons start starts ih =>
    intro entries hends hstarts
    rw [List.length_cons, Nat.mul_add, Nat.mul_one] at hends
    have hfirst : littleEndian (slice entries 8 8) = start := hstarts 0 (Nat.succ_pos _)
    have hrest : chunkStarts starts.length (entries.drop recordLength) = .ok starts := by
      refine ih (by rw [List.length_drop]; omega) fun i hi => ?_
      rw [slice_drop, ← Nat.add_assoc, Nat.add_comm recordLength, ← Nat.mul_succ]
      exact hstarts (i + 1) (Nat.succ_lt_succ hi)
    rw [List.length_cons, chunkStarts, if_neg (by omega), hrest, hfirst]

/-- **Where the chunks lie** depends on nothing else in the file. -/
theorem HasDirectory.bounds_eq {file : Bytes} {position : Nat} {starts : List Nat}
    (h : HasDirectory file position starts) (hne : starts ≠ []) :
    bounds file = .ok (chunkBounds position starts) := by
  have hheader := h.header
  have hends := h.ends
  have hstart : directoryStart file = .ok position := by
    rw [directoryStart, if_neg (by omega), numberAt_of_le (by rw [recordLength] at hheader; omega),
      h.points]
  have hcount : numberAt file position 4 = .ok starts.length := by
    rw [numberAt_of_le (by omega), h.count]
  have hstarts : chunkStarts starts.length (file.drop (position + 4)) = .ok starts := by
    refine chunkStarts_of_entries (by rw [List.length_drop]; omega) fun i hi => ?_
    rw [slice_drop]
    exact h.starts i hi
  obtain ⟨n, hn⟩ := Nat.exists_eq_succ_of_ne_zero fun h0 => hne (List.length_eq_zero_iff.mp h0)
  rw [hn] at hcount hstarts
  simp only [bounds, hstart, hcount, hstarts]

/-! ## Messages -/

/-- What a decompressed chunk is read as: entries one after the other, each a length and a message
in as many of the following bytes, or in all that are left if these are fewer. -/
inductive ReadsAs : Bytes → List Message → Prop
  /-- nothing is left -/
  | nil : ReadsAs [] []
  /-- a message, and those after it -/
  | cons {data : Bytes} {m : Message} {ms : List Message} (complete : 4 ≤ data.length)
    (parses : Message.parse .logEntry ((data.drop 4).take (littleEndian (data.take 4))) = .ok m)
    (rest : ReadsAs ((data.drop 4).drop (littleEndian (data.take 4))) ms) : ReadsAs data (m :: ms)

/-- The bytes of a chunk can be decompressed, and are read as some messages. -/
def ChunkHolds (stream : Bytes) (ms : List Message) : Prop :=
  ∃ data, Deflate.decompress stream = some data ∧ ReadsAs data ms

/-- **Entries** are read without a fault exactly if the chunk is read as some messages, and these are
what is given. -/
theorem readsAs_iff {data : Bytes} {ms : List Message} :
    ReadsAs data ms ↔ entries data = ⟨ms.toArray, none⟩ := by
  constructor
  · intro h
    induction h with
    | nil => rw [entries]; rfl
    | @cons data m ms complete parses rest ih =>
      obtain ⟨b, bs, rfl⟩ : ∃ b bs, data = b :: bs :=
        List.exists_cons_of_length_pos (by omega)
      rw [entries, if_neg (by omega)]
      simp only [parses, ih]
      rw [Emission.andThen_of_none rfl]
      exact Emission.ext (by simp [Emission.one]) rfl
  · intro h
    fun_induction entries data generalizing ms with
    | case1 =>
      obtain rfl : ms = [] := by simpa [Emission.nothing, eq_comm] using h
      exact .nil
    | case2 b bs hshort => cases h
    | case3 => cases h
    | case4 b bs hlong =>
      rename_i length rest m hparse ih
      rw [Emission.andThen_of_none rfl, Emission.mk.injEq] at h
      obtain ⟨hitems, hfault⟩ := h
      obtain rfl : m :: (entries (rest.drop length)).items.toList = ms := by
        simpa [Emission.one] using congrArg Array.toList hitems
      exact .cons (Nat.le_of_not_lt hlong) hparse (ih (Emission.ext (by simp) hfault))

/-- A chunk gives its messages, and no fault. -/
theorem chunkEntries_of_holds {file : Bytes} {range : Nat × Nat} {ms : List Message}
    (h : ChunkHolds (chunkBytes file range.1 range.2) ms) :
    chunkEntries file range.1 range.2 = ⟨ms.toArray, none⟩ := by
  obtain ⟨data, hdata, hreads⟩ := h
  simp only [chunkEntries, hdata, readsAs_iff.mp hreads]

/-- **Chunks that can be read come first**, whatever the later ones hold. -/
theorem prefix_forEach_chunkEntries {file : Bytes} {ranges : List (Nat × Nat)}
    {messages : List (List Message)}
    (h : List.Forall₂ (fun b ms => ChunkHolds (chunkBytes file b.1 b.2) ms) ranges messages)
    (later : List (Nat × Nat)) :
    messages.flatten <+:
      (Emission.forEach (ranges ++ later) fun b => chunkEntries file b.1 b.2).items.toList := by
  induction h with
  | nil => exact List.nil_prefix
  | cons hfirst _ ih =>
    rw [List.cons_append, Emission.forEach_cons, chunkEntries_of_holds hfirst,
      Emission.andThen_of_none rfl, Array.toList_append, List.flatten_cons]
    exact (List.prefix_append_right_inj _).mpr ih

/-- A file gives the messages of its first chunks first, if these can be read. -/
theorem HasDirectory.prefix_read {file : Bytes} {position : Nat} {starts : List Nat}
    (hfile : HasDirectory file position starts) {k : Nat} {messages : List (List Message)}
    (h : List.Forall₂ (fun b ms => ChunkHolds (chunkBytes file b.1 b.2) ms)
      ((chunkRanges position starts).take k) messages) :
    messages.flatten <+: (read file).items.toList := by
  by_cases hne : starts = []
  · -- a log without chunks has no messages
    subst hne
    rw [show chunkRanges position [] = [] from rfl, List.take_nil] at h
    cases h
    exact List.nil_prefix
  · have hprefix := prefix_forEach_chunkEntries h ((chunkRanges position starts).drop k)
    rw [List.take_append_drop] at hprefix
    rw [read, hfile.bounds_eq hne]
    exact hprefix

/-- **Damage does not reach back.** Two files have the directory in the same place, and in it the same
starts of chunks. If the first `k` chunks have the same bytes in both, and these are read without a
fault, both files give the messages of these chunks first, in order. Nothing is said about the other
numbers in header and directory, nor about the later chunks, which may give more messages, other
messages or any fault. -/
theorem messages_of_intact_chunks (f g : Bytes) (position : Nat) (starts : List Nat)
    (hf : HasDirectory f position starts) (hg : HasDirectory g position starts) (k : Nat)
    (hsame : ∀ b ∈ (chunkRanges position starts).take k,
      chunkBytes f b.1 b.2 = chunkBytes g b.1 b.2)
    (messages : List (List Message))
    (hread : List.Forall₂ (fun b ms => ChunkHolds (chunkBytes f b.1 b.2) ms)
      ((chunkRanges position starts).take k) messages) :
    messages.flatten <+: (read f).items.toList ∧ messages.flatten <+: (read g).items.toList := by
  have hread' : List.Forall₂ (fun b ms => ChunkHolds (chunkBytes g b.1 b.2) ms)
      ((chunkRanges position starts).take k) messages := by
    refine ((List.forall₂_and_left _ _).mpr ⟨hsame, hread⟩).imp fun b ms hb => ?_
    rw [← hb.1]
    exact hb.2
  exact ⟨hf.prefix_read hread, hg.prefix_read hread'⟩

/-- The log of two chunks, with other numbers and a second chunk that is no stream. -/
def damagedLog : LogFile :=
  { twoChunkLog with
    version := 7
    chunkSize := 0
    chunks :=
      [⟨[[8, 5, 16, 1], [8, 9, 16, 2]],
          [120, 218, 99, 97, 96, 96, 224, 96, 21, 96, 100, 1, 209, 156, 2, 76, 0, 2, 13, 0, 74], 9, 9⟩,
        ⟨[], List.replicate 20 255, 9, 9⟩]
    endMark := some (0, 0) }

theorem hasDirectory_twoChunkLog : HasDirectory twoChunkLog.bytes 65 [24, 45, 65] :=
  ⟨by decide +kernel, by decide +kernel, by decide +kernel, by decide +kernel, by decide +kernel⟩

theorem hasDirectory_damagedLog : HasDirectory damagedLog.bytes 65 [24, 45, 65] :=
  ⟨by decide +kernel, by decide +kernel, by decide +kernel, by decide +kernel, by decide +kernel⟩

/-- The first chunk of the log, whose bytes are the same in both files. -/
theorem chunkHolds_twoChunkLog {m n : Message} (hm : Message.parse .logEntry [8, 5, 16, 1] = .ok m)
    (hn : Message.parse .logEntry [8, 9, 16, 2] = .ok n) :
    ChunkHolds (chunkBytes twoChunkLog.bytes 24 45) [m, n] := by
  have hstream : Deflate.decompress (chunkBytes twoChunkLog.bytes 24 45) =
      some [4, 0, 0, 0, 8, 5, 16, 1, 4, 0, 0, 0, 8, 9, 16, 2] := by decide +kernel
  exact ⟨_, hstream, .cons (by decide) hm (.cons (by decide) hn .nil)⟩

theorem messages_of_damagedLog :
    (HasDirectory twoChunkLog.bytes 65 [24, 45, 65] ∧
        HasDirectory damagedLog.bytes 65 [24, 45, 65] ∧
        (chunkRanges 65 [24, 45, 65]).take 1 = [(24, 45)] ∧
        chunkBytes twoChunkLog.bytes 24 45 = chunkBytes damagedLog.bytes 24 45) ∧
      chunkBytes twoChunkLog.bytes 45 65 ≠ chunkBytes damagedLog.bytes 45 65 ∧
      (read damagedLog.bytes).fault = some .badStream ∧
      ∃ m n, Message.parse .logEntry [8, 5, 16, 1] = .ok m ∧
        Message.parse .logEntry [8, 9, 16, 2] = .ok n ∧
        [m, n] <+: (read twoChunkLog.bytes).items.toList ∧
        [m, n] <+: (read damagedLog.bytes).items.toList := by
  have hsame : chunkBytes twoChunkLog.bytes 24 45 = chunkBytes damagedLog.bytes 24 45 := by
    decide +kernel
  obtain ⟨m, hm⟩ := (twoChunkLog_isWritten _ (List.mem_cons_self ..)).parses [8, 5, 16, 1] (by decide)
  obtain ⟨n, hn⟩ := (twoChunkLog_isWritten _ (List.mem_cons_self ..)).parses [8, 9, 16, 2] (by decide)
  refine ⟨⟨hasDirectory_twoChunkLog, hasDirectory_damagedLog, rfl, hsame⟩, by decide +kernel,
    by decide +kernel, m, n, hm, hn, ?_⟩
  refine messages_of_intact_chunks _ _ _ _ hasDirectory_twoChunkLog hasDirectory_damagedLog 1
    (fun b hb => ?_) [[m, n]] (.cons (chunkHolds_twoChunkLog hm hn) .nil)
  obtain rfl := List.mem_singleton.mp hb
  exact hsame

end CpuTrace.Log
