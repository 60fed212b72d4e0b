import CpuTrace.Proofs.IntactChunks
import Mathlib

/-!
# Entries that are cut off

A payload should be entries one after the other, each a length and as many bytes (`IsFramed`). A log
that was damaged may end inside an entry: the last length announces more bytes than are left
(`IsCutOff`). The reader takes what is left for the whole entry. It stops only if these bytes are no
message; and since no field of a message has to be there, bytes that end between two fields are one.

So a payload that is read without a fault is framed, or its last entry is cut off and the part of it
that is left is passed on as a message. `entries_eq_iff_framed_or_cutOff` says that these are all cases,
and `read_cutLog` has a log of the second kind. Everything else that can be cut off is a fault: the
header, the directory, a stream, and a length.
-/

namespace CpuTrace.Log

open Wire (Bytes Message)

/-! ## Payloads -/

/-- A payload is some bodies, each behind its length. -/
structure IsFramed (data : Bytes) (bodies : List Bytes) : Prop where
  /-- there is nothing else -/
  bytes : data = bodies.flatMap entryBytes
  /-- the lengths fit in four bytes -/
  fits : ∀ body ∈ bodies, body.length < 2 ^ 32

/-- A payload ends in an entry that is cut off: after some bodies, each behind its length, there is
one more length, and fewer bytes than it announces. -/
structure IsCutOff (data : Bytes) (bodies : List Bytes) (announced : Nat) (part : Bytes) : Prop where
  /-- there is nothing else -/
  bytes : data = bodies.flatMap entryBytes ++ (littleEndianBytes 4 announced ++ part)
  /-- the lengths fit in four bytes -/
  fits : ∀ body ∈ bodies, body.length < 2 ^ 32
  /-- the last one does, too -/
  announced_lt : announced < 2 ^ 32
  /-- it announces more than is left -/
  short : part.length < announced

/-- Bodies are read as messages, one by one. -/
def ParseAs (bodies : List Bytes) (ms : List Message) : Prop :=
  List.Forall₂ (fun body m => Message.parse .logEntry body = .ok m) bodies ms

theorem parseAs_concat_iff {bodies : List Bytes} {body : Bytes} {ms : List Message} :
    ParseAs (bodies ++ [body]) ms ↔
      ∃ ms' m, ms = ms' ++ [m] ∧ ParseAs bodies ms' ∧ Message.parse .logEntry body = .ok m := by
  constructor
  · intro h
    induction bodies generalizing ms with
    | nil =>
      cases h with
      | cons hm hnil =>
        cases hnil
        exact ⟨[], _, rfl, .nil, hm⟩
    | cons first bodies ih =>
      cases h with
      | cons hfirst h =>
        obtain ⟨ms', m, rfl, hms', hm⟩ := ih h
        exact ⟨_ :: ms', m, rfl, .cons hfirst hms', hm⟩
  · rintro ⟨ms', m, rfl, hms', hm⟩
    exact List.rel_append hms' (.cons hm .nil)

theorem littleEndian_lt (bs : Bytes) : littleEndian bs < 256 ^ bs.length := by
  induction bs with
  | nil => exact Nat.one_pos
  | cons b bs ih =>
    have hb : b.toNat < 256 := b.toNat_lt
    rw [littleEndian, List.length_cons, Nat.pow_succ]
    omega

/-- Bytes are those of the number that they stand for. -/
theorem littleEndianBytes_littleEndian (bs : Bytes) :
    littleEndianBytes bs.length (littleEndian bs) = bs := by
  induction bs with
  | nil => rfl
  | cons b bs ih =>
    have hb : b.toNat < 256 := b.toNat_lt
    have hrest : (b.toNat + 256 * littleEndian bs) / 256 = littleEndian bs := by omega
    have hfirst : UInt8.ofNat (b.toNat + 256 * littleEndian bs) = b := by
      apply UInt8.toNat_inj.mp
      rw [UInt8.toNat_ofNat']
      omega
    rw [List.length_cons, littleEndian, littleEndianBytes, hrest, hfirst, ih]

/-- A payload of four bytes or more starts with a length. -/
theorem exists_announced {data : Bytes} (h : 4 ≤ data.length) :
    ∃ announced < 2 ^ 32, littleEndian (data.take 4) = announced ∧
      data = littleEndianBytes 4 announced ++ data.drop 4 := by
  have hlength : (data.take 4).length = 4 := List.length_take_of_le h
  have hlt := littleEndian_lt (data.take 4)
  have hbytes := littleEndianBytes_littleEndian (data.take 4)
  rw [hlength] at hlt hbytes
  refine ⟨_, hlt, rfl, ?_⟩
  rw [hbytes, List.take_append_drop]

/-- Lengths that stand at the start of the same bytes are the same. -/
theorem announced_inj {n n' : Nat} {rest rest' : Bytes} (hn : n < 2 ^ 32) (hn' : n' < 2 ^ 32)
    (h : littleEndianBytes 4 n ++ rest = littleEndianBytes 4 n' ++ rest') : n = n' ∧ rest = rest' := by
  obtain ⟨hbytes, hrest⟩ := List.append_inj h (by simp)
  have hnumbers := congrArg littleEndian hbytes
  rw [littleEndian_littleEndianBytes (show n < 256 ^ 4 from hn),
    littleEndian_littleEndianBytes (show n' < 256 ^ 4 from hn')] at hnumbers
  exact ⟨hnumbers, hrest⟩

/-- Entries that stand at the start of the same bytes are the same. -/
theorem entryBytes_inj {body body' rest rest' : Bytes} (hbody : body.length < 2 ^ 32)
    (hbody' : body'.length < 2 ^ 32) (h : entryBytes body ++ rest = entryBytes body' ++ rest') :
    body = body' ∧ rest = rest' := by
  rw [entryBytes, entryBytes, List.append_assoc, List.append_assoc] at h
  obtain ⟨hlength, h⟩ := announced_inj hbody hbody' h
  exact List.append_inj h hlength

/-- **No payload is both**: where one division has a length that announces too much, the other would
have the same length, and enough bytes behind it. -/
theorem IsCutOff.not_isFramed {data part : Bytes} {bodies : List Bytes} {announced : Nat}
    (h : IsCutOff data bodies announced part) (bodies' : List Bytes) : ¬ IsFramed data bodies' := by
  intro hframed
  induction bodies generalizing data bodies' with
  | nil =>
    obtain ⟨hcut, -, hannounced, hshort⟩ := h
    obtain ⟨hdata, hfits⟩ := hframed
    have heq : littleEndianBytes 4 announced ++ part = bodies'.flatMap entryBytes := by
      rw [← hdata, hcut]
      rfl
    cases bodies' with
    | nil => simpa using congrArg List.length heq
    | cons body bodies' =>
      rw [List.flatMap_cons, entryBytes, List.append_assoc] at heq
      obtain ⟨rfl, rfl⟩ := announced_inj hannounced (hfits body (List.mem_cons_self ..)) heq
      rw [List.length_append] at hshort
      omega
  | cons body bodies ih =>
    obtain ⟨hcut, hfits, hannounced, hshort⟩ := h
    obtain ⟨hbody, hbodies⟩ := List.forall_mem_cons.mp hfits
    obtain ⟨hdata, hfits'⟩ := hframed
    rw [List.flatMap_cons, List.append_assoc] at hcut
    cases bodies' with
    | nil =>
      have hlength := congrArg List.length (hcut.symm.trans hdata)
      simp [entryBytes] at hlength
    | cons body' bodies' =>
      obtain ⟨hbody', hbodies'⟩ := List.forall_mem_cons.mp hfits'
      obtain ⟨rfl, hrest⟩ := entryBytes_inj hbody hbody' (hcut.symm.trans hdata)
      exact ih ⟨rfl, hbodies, hannounced, hshort⟩ bodies' ⟨hrest, hbodies'⟩

/-! ## Reading them -/

theorem readsAs_nil_iff {ms : List Message} : ReadsAs [] ms ↔ ms = [] := by
  constructor
  · intro h
    cases h with
    | nil => rfl
    | cons complete => simp at complete
  · rintro rfl
    exact .nil

/-- What is read from a length and the bytes behind it. -/
theorem readsAs_announced_iff {announced : Nat} {rest : Bytes} {ms : List Message}
    (h : announced < 2 ^ 32) :
    ReadsAs (littleEndianBytes 4 announced ++ rest) ms ↔
      ∃ m ms', ms = m :: ms' ∧ Message.parse .logEntry (rest.take announced) = .ok m ∧
        ReadsAs (rest.drop announced) ms' := by
  have hlength : (littleEndianBytes 4 announced).length = 4 := length_littleEndianBytes ..
  have htake : (littleEndianBytes 4 announced ++ rest).take 4 = littleEndianBytes 4 announced :=
    List.take_left' hlength
  have hdrop : (littleEndianBytes 4 announced ++ rest).drop 4 = rest := List.drop_left' hlength
  have hnumber := littleEndian_littleEndianBytes (show announced < 256 ^ 4 from h)
  constructor
  · intro hreads
    generalize hdata : littleEndianBytes 4 announced ++ rest = data at hreads
    cases hreads with
    | nil => simpa using congrArg List.length hdata
    | cons complete parses hrest =>
      subst hdata
      rw [htake, hdrop, hnumber] at parses hrest
      exact ⟨_, _, rfl, parses, hrest⟩
  · rintro ⟨m, ms', rfl, hparse, hrest⟩
    refine .cons ?_ ?_ ?_
    · rw [List.length_append, hlength]
      omega
    · rw [htake, hdrop, hnumber]
      exact hparse
    · rw [htake, hdrop, hnumber]
      exact hrest

/-- An entry is one message, and what follows it is read by itself. -/
theorem readsAs_entryBytes_append_iff {body rest : Bytes} {ms : List Message}
    (h : body.length < 2 ^ 32) :
    ReadsAs (entryBytes body ++ rest) ms ↔
      ∃ m ms', ms = m :: ms' ∧ Message.parse .logEntry body = .ok m ∧ ReadsAs rest ms' := by
  rw [entryBytes, List.append_assoc, readsAs_announced_iff h, List.take_left, List.drop_left]

/-- **Complete entries** are their messages, whatever follows them. -/
theorem readsAs_flatMap_append_iff {bodies : List Bytes} {rest : Bytes} {ms : List Message}
    (h : ∀ body ∈ bodies, body.length < 2 ^ 32) :
    ReadsAs (bodies.flatMap entryBytes ++ rest) ms ↔
      ∃ ms₁ ms₂, ms = ms₁ ++ ms₂ ∧ ParseAs bodies ms₁ ∧ ReadsAs rest ms₂ := by
  induction bodies generalizing ms with
  | nil =>
    constructor
    · intro hrest
      exact ⟨[], ms, rfl, .nil, hrest⟩
    · rintro ⟨ms₁, ms₂, rfl, hparse, hrest⟩
      cases hparse
      exact hrest
  | cons body bodies ih =>
    obtain ⟨hbody, hbodies⟩ := List.forall_mem_cons.mp h
    rw [List.flatMap_cons, List.append_assoc, readsAs_entryBytes_append_iff hbody]
    constructor
    · rintro ⟨m, ms', rfl, hm, hreads⟩
      obtain ⟨ms₁, ms₂, rfl, hparse, hrest⟩ := (ih hbodies).mp hreads
      exact ⟨m :: ms₁, ms₂, rfl, .cons hm hparse, hrest⟩
    · rintro ⟨ms₁, ms₂, rfl, hparse, hrest⟩
      cases hparse with
      | cons hm hparse => exact ⟨_, _, rfl, hm, (ih hbodies).mpr ⟨_, ms₂, rfl, hparse, hrest⟩⟩

theorem IsFramed.readsAs_iff {data : Bytes} {bodies : List Bytes} {ms : List Message}
    (h : IsFramed data bodies) : ReadsAs data ms ↔ ParseAs bodies ms := by
  rw [h.bytes, ← List.append_nil (bodies.flatMap entryBytes), readsAs_flatMap_append_iff h.fits]
  constructor
  · rintro ⟨ms₁, ms₂, rfl, hparse, hrest⟩
    obtain rfl := readsAs_nil_iff.mp hrest
    rwa [List.append_nil]
  · intro hparse
    exact ⟨ms, [], (List.append_nil ms).symm, hparse, .nil⟩

/-- **A part is taken for the whole**: the last message is what the bytes that are left are read as. -/
theorem IsCutOff.readsAs_iff {data part : Bytes} {bodies : List Bytes} {announced : Nat}
    {ms : List Message} (h : IsCutOff data bodies announced part) :
    ReadsAs data ms ↔ ParseAs (bodies ++ [part]) ms := by
  have hle := Nat.le_of_lt h.short
  rw [h.bytes, readsAs_flatMap_append_iff h.fits]
  simp only [readsAs_announced_iff h.announced_lt, List.take_of_length_le hle,
    List.drop_of_length_le hle, readsAs_nil_iff]
  rw [parseAs_concat_iff]
  constructor
  · rintro ⟨ms', _, rfl, hms', m, _, rfl, hm, rfl⟩
    exact ⟨ms', m, rfl, hms', hm⟩
  · rintro ⟨ms', m, rfl, hms', hm⟩
    exact ⟨ms', [m], rfl, hms', m, [], rfl, hm, rfl⟩

/-- A payload that is read without a fault is divided into entries, the last of which may be cut off. -/
theorem ReadsAs.framed_or_cutOff {data : Bytes} {ms : List Message} (h : ReadsAs data ms) :
    (∃ bodies, IsFramed data bodies) ∨ ∃ bodies announced part, IsCutOff data bodies announced part := by
  induction h with
  | nil => exact .inl ⟨[], rfl, by simp⟩
  | @cons data m ms complete parses rest ih =>
    obtain ⟨announced, hannounced, hnumber, hdata⟩ := exists_announced complete
    rw [hnumber] at ih
    by_cases hshort : (data.drop 4).length < announced
    · exact .inr ⟨[], announced, data.drop 4, hdata, by simp, hannounced, hshort⟩
    · -- the entry is complete, and stands before those that follow
      obtain ⟨body, hbody⟩ : ∃ body, (data.drop 4).take announced = body := ⟨_, rfl⟩
      have hlength : body.length = announced := by
        rw [← hbody, List.length_take]
        omega
      have hentry : data = entryBytes body ++ (data.drop 4).drop announced := by
        rw [entryBytes, hlength, List.append_assoc, ← hbody, List.take_append_drop]
        exact hdata
      have hfits : ∀ {bodies : List Bytes}, (∀ b ∈ bodies, b.length < 2 ^ 32) →
          ∀ b ∈ body :: bodies, b.length < 2 ^ 32 := fun hbodies =>
        List.forall_mem_cons.mpr ⟨hlength ▸ hannounced, hbodies⟩
      rcases ih with ⟨bodies, hbytes, hbodies⟩ | ⟨bodies, announced', part, hcut⟩
      · refine .inl ⟨body :: bodies, ?_, hfits hbodies⟩
        rw [List.flatMap_cons, ← hbytes]
        exact hentry
      · refine .inr ⟨body :: bodies, announced', part, ?_, hfits hcut.fits, hcut.announced_lt, hcut.short⟩
        rw [List.flatMap_cons, List.append_assoc, ← hcut.bytes]
        exact hentry

/-- **What a payload without a fault looks like.** Reading a payload gives some messages and no fault
exactly if it is framed and these are its messages, or if its last entry is cut off and these are the
messages of the entries before and of the part that is left. No payload is both. So an entry that is cut
off is a fault exactly if the part that is left is no message, and is passed on otherwise. -/
theorem entries_eq_iff_framed_or_cutOff (data : Bytes) :
    (∀ ms : List Message, entries data = ⟨ms.toArray, none⟩ ↔
      (∃ bodies, IsFramed data bodies ∧ ParseAs bodies ms) ∨
        ∃ bodies announced part, IsCutOff data bodies announced part ∧ ParseAs (bodies ++ [part]) ms) ∧
    ∀ bodies announced part, IsCutOff data bodies announced part →
      (¬ ∃ bodies', IsFramed data bodies') ∧
        ((entries data).fault = none ↔ ∃ ms, ParseAs (bodies ++ [part]) ms) := by
  refine ⟨fun ms => ?_, fun bodies announced part hcut => ⟨?_, ?_⟩⟩
  · rw [← readsAs_iff]
    constructor
    · intro hreads
      rcases hreads.framed_or_cutOff with ⟨bodies, hframed⟩ | ⟨bodies, announced, part, hcut⟩
      · exact .inl ⟨bodies, hframed, hframed.readsAs_iff.mp hreads⟩
      · exact .inr ⟨bodies, announced, part, hcut, hcut.readsAs_iff.mp hreads⟩
    · rintro (⟨bodies, hframed, hparse⟩ | ⟨bodies, announced, part, hcut, hparse⟩)
      · exact hframed.readsAs_iff.mpr hparse
      · exact hcut.readsAs_iff.mpr hparse
  · rintro ⟨bodies', hframed⟩
    exact hcut.not_isFramed bodies' hframed
  · constructor
    · intro hfault
      have hreads : ReadsAs data (entries data).items.toList :=
        readsAs_iff.mpr (Emission.ext (by simp) hfault)
      exact ⟨_, hcut.readsAs_iff.mp hreads⟩
    · rintro ⟨ms, hparse⟩
      rw [readsAs_iff.mp (hcut.readsAs_iff.mpr hparse)]

/-- A payload whose last entry announces twenty bytes, of which four are left, up to the end of a
field. -/
def cutPayload : Bytes := entryBytes [8, 5, 16, 1] ++ (littleEndianBytes 4 20 ++ [8, 9, 16, 2])

theorem isCutOff_cutPayload : IsCutOff cutPayload [[8, 5, 16, 1]] 20 [8, 9, 16, 2] :=
  ⟨rfl, by decide, by decide, by decide⟩

theorem exists_parseAs_cutPayload : ∃ m n, ParseAs [[8, 5, 16, 1], [8, 9, 16, 2]] [m, n] := by
  have hwritten := (twoChunkLog_isWritten _ (List.mem_cons_self ..)).parses
  obtain ⟨m, hm⟩ := hwritten [8, 5, 16, 1] (by decide)
  obtain ⟨n, hn⟩ := hwritten [8, 9, 16, 2] (by decide)
  exact ⟨m, n, .cons hm (.cons hn .nil)⟩

theorem entries_cutPayload : IsCutOff cutPayload [[8, 5, 16, 1]] 20 [8, 9, 16, 2] ∧
    (¬ ∃ bodies, IsFramed cutPayload bodies) ∧ ∃ m n,
      ParseAs [[8, 5, 16, 1], [8, 9, 16, 2]] [m, n] ∧ entries cutPayload = ⟨#[m, n], none⟩ := by
  obtain ⟨hreads, hcut⟩ := entries_eq_iff_framed_or_cutOff cutPayload
  obtain ⟨m, n, hparse⟩ := exists_parseAs_cutPayload
  exact ⟨isCutOff_cutPayload, (hcut _ _ _ isCutOff_cutPayload).1, m, n, hparse,
    (hreads [m, n]).mpr (.inr ⟨_, _, _, isCutOff_cutPayload, hparse⟩)⟩

/-- A log with this payload, stored without compression. -/
def cutLog : LogFile where
  version := 2
  reserved₁ := 0
  reserved₂ := 0
  chunkSize := 65536
  chunks :=
    [⟨[[8, 5, 16, 1], [8, 9, 16, 2]],
        [120, 1, 1, 16, 0, 239, 255, 4, 0, 0, 0, 8, 5, 16, 1, 20, 0, 0, 0, 8, 9, 16, 2, 2, 141, 0, 90],
        0, 2⟩]
  endMark := none

/-- **A part of an entry that is passed on.** The log is read to its end and gives two messages, but the
payload of its only chunk is not framed: the second message comes from four bytes behind a length of
twenty. -/
theorem read_cutLog : Deflate.decompress (chunkBytes cutLog.bytes 24 51) = some cutPayload ∧
    (¬ ∃ bodies, IsFramed cutPayload bodies) ∧ ∃ m n,
      ParseAs [[8, 5, 16, 1], [8, 9, 16, 2]] [m, n] ∧ read cutLog.bytes = ⟨#[m, n], none⟩ := by
  have hstream : Deflate.decompress (chunkBytes cutLog.bytes 24 51) = some cutPayload := by
    decide +kernel
  have hbounds : bounds cutLog.bytes = .ok [24, 51] := by decide +kernel
  obtain ⟨m, n, hparse⟩ := exists_parseAs_cutPayload
  have hholds : ChunkHolds (chunkBytes cutLog.bytes 24 51) [m, n] :=
    ⟨cutPayload, hstream, isCutOff_cutPayload.readsAs_iff.mpr hparse⟩
  have hchunk : chunkEntries cutLog.bytes 24 51 = ⟨#[m, n], none⟩ :=
    @chunkEntries_of_holds _ (24, 51) _ hholds
  refine ⟨hstream, ?_, m, n, hparse, ?_⟩
  · rintro ⟨bodies, hframed⟩
    exact isCutOff_cutPayload.not_isFramed bodies hframed
  · rw [read, hbounds]
    simp only [Emission.bindExcept, List.tail_cons, List.zip_cons_cons, List.zip_nil_right,
      Emission.forEach_cons, Emission.forEach_nil, Emission.andThen_nothing, hchunk]

end CpuTrace.Log
