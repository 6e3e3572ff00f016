import Elf2Rpl.Tool.Offsets

/-! # P12: writing the file

`writeRpl` writes the file header at offset 0, the section headers one after another
from `shoff`, and every nonempty payload at its `offset`. The file is modelled as its
bytes: `writeAt` is a seek and a write, and a seek past the end leaves a gap of zeros.
When no two of these writes touch a common byte, each can be read back from the file
(`writeRpl_reads`), and `readElf` reads the whole file back (`readElf_writeRpl`).
-/

namespace Elf2Rpl

open elf

/-- `out.seekp(pos); out.write(bytes)` on the file's bytes: a seek past the end leaves a
gap that reads as zeros. -/
def writeAt (out : List UInt8) (pos : Nat) (bytes : List UInt8) : List UInt8 :=
  let out := out ++ List.replicate (pos - out.length) 0
  out.take pos ++ bytes ++ out.drop (pos + bytes.length)

/-- `writeRpl`, as the bytes of the file it writes; the section headers go out one
after another from `shoff`. Failing to open the file is not modelled. -/
def writeRpl (f : ElfFile) : List UInt8 :=
  let out := writeAt [] 0 f.header.encode
  let out := writeAt out f.header.shoff.toNat
    (SectionHeader.layout.encodeAll (f.sections.map (·.header)))
  f.sections.foldl (fun out s =>
    if s.data.length ≠ 0 then writeAt out s.header.offset.toNat s.data else out) out

/-- `len` bytes of a file from `pos`. -/
def readAt (file : List UInt8) (pos len : Nat) : List UInt8 := (file.drop pos).take len

theorem getElem?_readAt (file : List UInt8) (pos len k : Nat) :
    (readAt file pos len)[k]? = if k < len then file[pos + k]? else none := by
  simp [readAt, List.getElem?_take, List.getElem?_drop]

section Write

variable (out : List UInt8) (pos : Nat) (bytes : List UInt8)

/-- Byte `i` after a write: the written byte inside the window, the old byte before the
old end, a zero of the gap, or nothing. -/
theorem getElem?_writeAt (i : Nat) :
    (writeAt out pos bytes)[i]? =
      if pos ≤ i ∧ i < pos + bytes.length then bytes[i - pos]?
      else if i < out.length then out[i]? else if i < pos then some 0 else none := by
  have hpad : ∀ j, (out ++ List.replicate (pos - out.length) 0)[j]? =
      if j < out.length then out[j]? else if j < pos then some 0 else none := fun j => by
    split_ifs with h1 h2
    · exact List.getElem?_append_left h1
    · rw [List.getElem?_append_right (by omega), List.getElem?_replicate, if_pos (by omega)]
    · rw [List.getElem?_append_right (by omega), List.getElem?_replicate, if_neg (by omega)]
  have hlen : (out ++ List.replicate (pos - out.length) 0).length = max out.length pos := by
    simp only [List.length_append, List.length_replicate]
    omega
  have htake : ((out ++ List.replicate (pos - out.length) 0).take pos).length = pos := by
    simp only [List.length_take, hlen]
    omega
  unfold writeAt
  dsimp only
  have hl : ((out ++ List.replicate (pos - out.length) 0).take pos ++ bytes).length =
      pos + bytes.length := by
    simp only [List.length_append, htake]
  by_cases h1 : i < pos
  · rw [List.append_assoc, List.getElem?_append_left (by omega), List.getElem?_take, if_pos h1,
      hpad, if_neg (show ¬(pos ≤ i ∧ i < pos + bytes.length) by omega)]
  by_cases h2 : i < pos + bytes.length
  · rw [List.getElem?_append_left (by omega), List.getElem?_append_right (by omega), htake,
      if_pos ⟨by omega, h2⟩]
  · rw [List.getElem?_append_right (by omega), List.getElem?_drop, hl,
      show pos + bytes.length + (i - (pos + bytes.length)) = i by omega, hpad,
      if_neg (show ¬(pos ≤ i ∧ i < pos + bytes.length) by omega)]

theorem length_writeAt : (writeAt out pos bytes).length = max out.length (pos + bytes.length) := by
  simp only [writeAt, List.length_append, List.length_take, List.length_drop,
    List.length_replicate]
  omega

theorem readAt_writeAt_self : readAt (writeAt out pos bytes) pos bytes.length = bytes :=
  List.ext_getElem? fun k => by
    rw [getElem?_readAt, getElem?_writeAt]
    by_cases hk : k < bytes.length
    · rw [if_pos hk, if_pos ⟨by omega, by omega⟩, Nat.add_sub_cancel_left]
    · rw [if_neg hk, List.getElem?_eq_none (by omega)]

/-- A write leaves alone every window of the old file it does not touch. -/
theorem readAt_writeAt_of_apart {p m : Nat} (hlen : p + m ≤ out.length)
    (h : p + m ≤ pos ∨ pos + bytes.length ≤ p) :
    readAt (writeAt out pos bytes) p m = readAt out p m :=
  List.ext_getElem? fun k => by
    rw [getElem?_readAt, getElem?_readAt, getElem?_writeAt]
    by_cases hk : k < m
    · rw [if_pos hk, if_pos hk, if_neg (by omega), if_pos (by omega)]
    · rw [if_neg hk, if_neg hk]

end Write

/-- The writes in order. -/
def writeAll (out : List UInt8) (ws : List (Nat × List UInt8)) : List UInt8 :=
  ws.foldl (fun out w => writeAt out w.1 w.2) out

/-- Two byte ranges, each a position and a length, that share no byte. -/
def RangesApart (r r' : Nat × Nat) : Prop := r.1 + r.2 ≤ r'.1 ∨ r'.1 + r'.2 ≤ r.1

instance : DecidableRel RangesApart := fun _ _ => inferInstanceAs (Decidable (_ ∨ _))

/-- Two writes that touch no common byte. -/
def Apart (w w' : Nat × List UInt8) : Prop := RangesApart (w.1, w.2.length) (w'.1, w'.2.length)

theorem le_length_writeAll (out : List UInt8) (ws : List (Nat × List UInt8)) :
    out.length ≤ (writeAll out ws).length ∧
      ∀ w ∈ ws, w.1 + w.2.length ≤ (writeAll out ws).length := by
  induction ws generalizing out with
  | nil => simp [writeAll]
  | cons w ws ih =>
    obtain ⟨h1, h2⟩ := ih (writeAt out w.1 w.2)
    have hw := length_writeAt out w.1 w.2
    refine ⟨by simp only [writeAll, List.foldl_cons] at h1 ⊢; omega, ?_⟩
    intro w' hw'
    rcases List.mem_cons.mp hw' with rfl | hw'
    · simp only [writeAll, List.foldl_cons] at h1 ⊢; omega
    · exact h2 w' hw'

/-- Writes that do not touch a window of the old file leave it alone. -/
theorem readAt_writeAll_of_apart {out : List UInt8} {ws : List (Nat × List UInt8)} {p m : Nat}
    (hlen : p + m ≤ out.length) (h : ∀ w ∈ ws, p + m ≤ w.1 ∨ w.1 + w.2.length ≤ p) :
    readAt (writeAll out ws) p m = readAt out p m := by
  induction ws generalizing out with
  | nil => rfl
  | cons w ws ih =>
    have hw := length_writeAt out w.1 w.2
    rw [writeAll, List.foldl_cons, ← writeAll,
      ih (by omega) fun w' hw' => h w' (List.mem_cons_of_mem _ hw'),
      readAt_writeAt_of_apart _ _ _ hlen (h w (List.mem_cons_self _ _))]

/-- Of writes no two of which touch a common byte, each can be read back. -/
theorem readAt_writeAll {out : List UInt8} {ws : List (Nat × List UInt8)} (hws : ws.Pairwise Apart)
    {w : Nat × List UInt8} (hw : w ∈ ws) : readAt (writeAll out ws) w.1 w.2.length = w.2 := by
  induction ws generalizing out with
  | nil => cases hw
  | cons w₀ ws ih =>
    rw [List.pairwise_cons] at hws
    rw [writeAll, List.foldl_cons, ← writeAll]
    rcases List.mem_cons.mp hw with rfl | hw
    · have := length_writeAt out w.1 w.2
      rw [readAt_writeAll_of_apart (by omega) hws.1, readAt_writeAt_self]
    · exact ih hws.2 hw

/-- The writes `writeRpl` makes: the file header, the section header table, then every
nonempty payload. -/
def rplWrites (f : ElfFile) : List (Nat × List UInt8) :=
  (0, f.header.encode) ::
    (f.header.shoff.toNat, SectionHeader.layout.encodeAll (f.sections.map (·.header))) ::
    (f.sections.filter fun s => s.data.length ≠ 0).map fun s => (s.header.offset.toNat, s.data)

/-- The byte ranges of the writes of `writeRpl`. -/
def rplRanges (f : ElfFile) : List (Nat × Nat) :=
  (0, 52) :: (f.header.shoff.toNat, 40 * f.sections.length) ::
    (f.sections.filter fun s => s.data.length ≠ 0).map fun s => (s.header.offset.toNat, s.data.length)

/-- Whether the writes overlap depends only on their ranges. -/
theorem apart_rplWrites_iff (f : ElfFile) :
    (rplWrites f).Pairwise Apart ↔ (rplRanges f).Pairwise RangesApart := by
  have h : rplRanges f = (rplWrites f).map fun w => (w.1, w.2.length) := by
    simp [rplRanges, rplWrites, Nat.mul_comm, Function.comp_def]
  rw [h, List.pairwise_map]
  rfl

theorem writeRpl_eq (f : ElfFile) : writeRpl f = writeAll [] (rplWrites f) := by
  suffices h : ∀ (l : List Section) out, l.foldl (fun out s =>
      if s.data.length ≠ 0 then writeAt out s.header.offset.toNat s.data else out) out =
      writeAll out ((l.filter fun s => s.data.length ≠ 0).map fun s =>
        (s.header.offset.toNat, s.data)) by
    simp only [writeRpl, rplWrites, h]
    rfl
  intro l
  induction l with
  | nil => intro; rfl
  | cons s l ih =>
    intro out
    by_cases hs : s.data.length ≠ 0
    · simp only [List.foldl_cons, if_pos hs, List.filter_cons, decide_eq_true hs, if_true,
        List.map_cons, writeAll, ih]
    · simp only [List.foldl_cons, if_neg hs, List.filter_cons, decide_eq_false hs,
        Bool.false_eq_true, if_false, ih]

/-- When no two writes of `writeRpl` overlap, its file holds the header at 0, the
section header table at `shoff`, and every nonempty payload at its `offset`. -/
theorem writeRpl_reads {f : ElfFile} (hws : (rplWrites f).Pairwise Apart) :
    readAt (writeRpl f) 0 52 = f.header.encode ∧
      readAt (writeRpl f) f.header.shoff.toNat (40 * f.sections.length) =
        SectionHeader.layout.encodeAll (f.sections.map (·.header)) ∧
      ∀ s ∈ f.sections, s.data ≠ [] → readAt (writeRpl f) s.header.offset.toNat s.data.length = s.data := by
  rw [writeRpl_eq]
  refine ⟨?_, ?_, fun s hs hne => ?_⟩
  · simpa using @readAt_writeAll [] _ hws _ (List.mem_cons_self _ _)
  · simpa [Nat.mul_comm] using @readAt_writeAll [] _ hws _
      (List.mem_cons_of_mem _ (List.mem_cons_self _ _))
  · have hmem : (s.header.offset.toNat, s.data) ∈ rplWrites f :=
      List.mem_cons_of_mem _ (List.mem_cons_of_mem _
        (List.mem_map.mpr ⟨s, List.mem_filter.mpr ⟨hs, by simpa using hne⟩, rfl⟩))
    exact readAt_writeAll hws hmem

/-- A window of a window. -/
theorem readAt_readAt (file : List UInt8) {p m k m' : Nat} (h : k + m' ≤ m) :
    readAt (readAt file p m) k m' = readAt file (p + k) m' := by
  simp only [readAt, List.drop_take, List.drop_drop, List.take_take]
  rw [Nat.min_eq_left (by omega), Nat.add_comm]

/-- Record `i` of an array is the window of its width at `i * width`. -/
theorem decode_readAt_encodeAll {α : Type} (L : Layout α) {rs : List α} {i : Nat}
    (hi : i < rs.length) : L.decode (readAt (L.encodeAll rs) (i * L.width) L.width) = rs[i] := by
  have h := L.records_encodeAll_append rs (t := []) (by simp [L.width_pos])
  rw [List.append_nil] at h
  have hc : i < L.count (L.encodeAll rs) := by
    rw [← L.length_records, h]
    exact hi
  rw [readAt, L.decode_take]
  simp only [← L.getElem_records _ i (by simpa using hc), h]

/-- What `readElf`'s section loop needs of the payloads to read them back: none where it
reads none, and exactly `size` bytes everywhere else. -/
def PayloadsSized (f : ElfFile) : Prop :=
  ∀ s ∈ f.sections, if s.header.size = 0 ∨ s.header.type = SHT_NOBITS then s.data = []
    else s.data.length = s.header.size.toNat

section ReadBack

variable {f : ElfFile} (hw : (rplWrites f).Pairwise Apart)
include hw

/-- The file header reads back from the first 52 bytes. -/
theorem decode_writeRpl : 52 ≤ (writeRpl f).length ∧ Header.decode (writeRpl f) = f.header := by
  obtain ⟨hhead, -, -⟩ := writeRpl_reads hw
  obtain ⟨-, hlen⟩ := le_length_writeAll [] (rplWrites f)
  rw [← writeRpl_eq] at hlen
  refine ⟨by simpa using hlen _ (List.mem_cons_self _ _), ?_⟩
  rw [← List.take_append_drop 52 (writeRpl f), show (writeRpl f).take 52 = f.header.encode
    from hhead, Header.decode_encode]

variable (hp : PayloadsSized f)
include hp

/-- Section `i` reads back from its slot of the header table, and the stream stays good at
the next slot. -/
theorem readSection_writeRpl {i : Nat} (hi : i < f.sections.length) :
    readSection (writeRpl f) ⟨f.header.shoff.toNat + 40 * i, true⟩ =
      ((f.sections[i].header, f.sections[i].data), ⟨f.header.shoff.toNat + 40 * (i + 1), true⟩) := by
  obtain ⟨-, htable, hdata⟩ := writeRpl_reads hw
  obtain ⟨-, hlen⟩ := le_length_writeAll [] (rplWrites f)
  rw [← writeRpl_eq] at hlen
  have htlen := hlen _ (List.mem_cons_of_mem _ (List.mem_cons_self _ _))
  simp only [Layout.length_encodeAll, List.length_map, SectionHeader.layout_width] at htlen
  have hdec : SectionHeader.layout.decode (readAt (writeRpl f) (f.header.shoff.toNat + 40 * i) 40) =
      f.sections[i].header := by
    have key := @decode_readAt_encodeAll _ SectionHeader.layout (f.sections.map (·.header)) i
      (by simpa using hi)
    simp only [SectionHeader.layout_width, List.getElem_map] at key
    rw [← readAt_readAt _ (show 40 * i + 40 ≤ 40 * f.sections.length by omega), htable,
      Nat.mul_comm, key]
  have hs := hp _ (List.getElem_mem hi)
  rw [Nat.mul_add_one, ← Nat.add_assoc]
  dsimp only [readSection]
  rw [InputStream.read_of_le (by omega)]
  dsimp only
  rw [← readAt, hdec]
  by_cases h1 : f.sections[i].header.size = 0 ∨ f.sections[i].header.type = SHT_NOBITS
  · rw [if_pos h1] at hs ⊢
    rw [hs]
  · rw [if_neg h1] at hs ⊢
    have hne : f.sections[i].data ≠ [] := fun he =>
      h1 (.inl (UInt32.toNat.inj (by simp [← hs, he])))
    have hend := hlen _ (List.mem_cons_of_mem _ (List.mem_cons_of_mem _ (List.mem_map.mpr
      ⟨_, List.mem_filter.mpr ⟨List.getElem_mem hi, by simpa using hne⟩, rfl⟩)))
    simp only at hend
    rw [InputStream.seek, if_pos rfl, InputStream.read_of_le (by omega), ← hs, ← readAt,
      hdata _ (List.getElem_mem hi) hne]
    rfl

/-- From slot `i` on, the section loop reads back every later header and payload. -/
theorem readSectionsFrom_writeRpl :
    ∀ n i, i + n = f.sections.length →
      readSectionsFrom (writeRpl f) n ⟨f.header.shoff.toNat + 40 * i, true⟩ =
        (f.sections.drop i).map fun s => (s.header, s.data)
  | 0, i, h => by rw [List.drop_eq_nil_of_le (by omega)]; rfl
  | n + 1, i, h => by
    rw [readSectionsFrom, readSection_writeRpl hw hp (by omega),
      List.drop_eq_getElem_cons (by omega), List.map_cons,
      readSectionsFrom_writeRpl n (i + 1) (by omega)]

/-- With `shnum` the section count, the section loop reads back every header and payload. -/
theorem readSections_writeRpl (hn : f.header.shnum.toNat = f.sections.length) :
    readSections (writeRpl f) f.header = f.sections.map fun s => (s.header, s.data) := by
  have h := readSectionsFrom_writeRpl hw hp f.sections.length 0 (Nat.zero_add _)
  rwa [Nat.mul_zero, Nat.add_zero, List.drop_zero, ← hn] at h

end ReadBack

/-- What `readElf` needs to read a file back as it was written: the five fields it
checks, the section count in `shnum`, every name in the string table at `shstrndx`,
every payload it reads exactly where the header says and no payload where it reads
none, and writes that do not overlap. -/
structure Readable (f : ElfFile) : Prop where
  check : checkHeader f.header = .ok ()
  shnum : f.header.shnum.toNat = f.sections.length
  shstrndx : f.header.shstrndx.toNat < f.sections.length
  names : ∀ s ∈ f.sections,
    cString (f.sec f.header.shstrndx.toNat).data s.header.name.toNat = .ok s.name
  payload : ∀ s ∈ f.sections, if s.header.size = 0 ∨ s.header.type = SHT_NOBITS then s.data = []
    else s.data.length = s.header.size.toNat
  apart : (rplWrites f).Pairwise Apart

section RoundTrip

variable {f : ElfFile} (hf : Readable f)
include hf

/-- `readElf` reads a readable file back as it was written. -/
theorem readElf_writeRpl : readElf (writeRpl f) = .ok f := by
  obtain ⟨h52, hdecode⟩ := decode_writeRpl hf.apart
  have hnames : nameSections (f.sections.map fun s => (s.header, s.data))
      f.header.shstrndx.toNat = .ok f.sections := by
    unfold nameSections
    rw [List.getElem?_map, List.getElem?_eq_getElem hf.shstrndx]
    refine mapM_eq_ok.mpr (List.forall₂_map_left_iff.mpr (List.forall₂_same.mpr fun s hs => ?_))
    have := hf.names s hs
    rw [ElfFile.sec_eq_getElem _ hf.shstrndx] at this
    simp [this, bind, Except.bind, pure, Except.pure]
  unfold readElf
  rw [if_neg (by omega), hdecode]
  simp [hf.check, readSections_writeRpl hf.apart hf.payload hf.shnum, hnames, bind, Except.bind,
    pure, Except.pure]

end RoundTrip

end Elf2Rpl
