import Elf2Rpl.Pipeline.Content

/-! # What the written file holds

On a run that lays every payload out (a `NULL` first section with no size, output below
4 GiB), the file `writeRpl` writes passes `readElf`'s checks on the identification fields,
and `readElf`'s section loop reads back, from the slots of the header table, every section
header and payload of the final file (`written_file_reads_back`): each payload lies where
its header says, with its length as size, and a section with no payload has size 0 or is
`SHT_NOBITS`. Only the names can fail to read back, since the name table may be
compressed. Where a header of the output locates the payload of a section other than a
symbol table, a relocation table or `.bss`, the bytes are the input section's payload, or,
from 24 bytes on, its size followed by zlib's stream of it (`written_payloads`).
-/

namespace Elf2Rpl

open elf

/-- With the header table at 64 and the whole file below 4 GiB, the payloads the layout
pass visits stay below 4 GiB. -/
theorem payloadStart_fit {g : ElfFile} (hsh : g.header.shoff = 64)
    (hfit : 64 + alignUp (40 * g.sections.length) 64 +
      payloadSpan g (List.range g.sections.length) < 2 ^ 32) :
    (payloadStart g).toNat + payloadSpan g (traversal g) < 2 ^ 32 := by
  have h64 : (64 : UInt32).toNat = 64 := rfl
  have hstart := toNat_payloadStart g (by rw [hsh, h64]; omega)
  have hspan := payloadSpan_le_range g (nodup_traversal g) fun _ => lt_of_mem_traversal
  rw [hstart, hsh, h64]
  omega

/-- A section the layout pass visits is never `SHT_NOBITS`. -/
theorem type_ne_nobits_of_mem_traversal {g : ElfFile} {i : Nat} (hi : i ∈ traversal g) :
    (g.sec i).header.type ≠ SHT_NOBITS := by
  rcases mem_traversal.mp hi with h | h | ⟨-, h⟩
  · rw [(getSectionByType_eq_some h).2]
    decide
  · rw [(getSectionByType_eq_some h).2]
    decide
  · intro hn
    rw [hn] at h
    exact absurd h (by decide)

/-- The payload condition of `readElf`'s section loop after the layout pass, for a file in
which every payload is visited and every section left unvisited without a payload has
size 0 or is `SHT_NOBITS`. -/
theorem payloadsSized_of_laidOut {g g' : ElfFile} (h : calculateSectionOffsets g = .ok g')
    (hfit : (payloadStart g).toNat + payloadSpan g (traversal g) < 2 ^ 32)
    (hvisit : ∀ i, (g.sec i).data ≠ [] → i ∈ traversal g)
    (hrest : ∀ i, i ∉ traversal g → (g.sec i).data = [] →
      (g.sec i).header.size = 0 ∨ (g.sec i).header.type = SHT_NOBITS) :
    PayloadsSized g' := by
  obtain ⟨g₁, h', -, -, hout, -⟩ := calculateSectionOffsets_spec g
  rw [h, Except.ok.injEq] at h'
  subst h'
  intro s hs
  obtain ⟨i, hi, rfl⟩ := List.getElem_of_mem hs
  rw [← ElfFile.sec_eq_getElem _ hi]
  by_cases ht : i ∈ traversal g
  · obtain ⟨k, hk, rfl⟩ := List.getElem_of_mem ht
    have hsize := (offset_add_size_le h hfit hk).2.1
    have htype : (g'.sec (traversal g)[k]).header.type = (g.sec (traversal g)[k]).header.type :=
      congrArg (·.1.type) ((calculateSectionOffsets_frame h).2.2 _)
    rw [laidOut_data h]
    have hnb := type_ne_nobits_of_mem_traversal ht
    split_ifs with hz
    · rcases hz with hz | hz
      · rw [hz] at hsize
        exact List.eq_nil_of_length_eq_zero hsize.symm
      · exact absurd (htype ▸ hz) hnb
    · exact hsize.symm
  · rw [hout i ht]
    have hd : (g.sec i).data = [] := by
      by_contra hne
      exact ht (hvisit i hne)
    rw [if_pos (hrest i ht hd)]
    exact hd

/-- Section `j` after P10 is the result of one turn of P10 on section `j` before it. -/
theorem deflateSection_sec {z : Zlib} {g g' : ElfFile} (h : deflateSections z g = .ok g')
    (j : Nat) : deflateSection z (g.sec j) = .ok (g'.sec j) :=
  sec_of_forall₂ (deflateSections_eq_ok h).2 (deflateSection_of_keepsPayload z (.inl (by decide))) j

namespace Stages.Follows

variable {z : Zlib} {file : List UInt8} {s : Stages} (hs : s.Follows z file)
include hs

/-- A section readElf or P2 returns without a payload has size 0 or is `SHT_NOBITS`. -/
theorem bss_sized (i : Nat) (hd : (s.bss.sec i).data = []) :
    (s.bss.sec i).header.size = 0 ∨ (s.bss.sec i).header.type = SHT_NOBITS := by
  rcases fixBssNoBits_sec hs.bss_eq i with h | ⟨-, -, h⟩
  · rw [h] at hd ⊢
    by_cases hl : i < s.read.sections.length
    · rw [ElfFile.sec_eq_getElem _ hl] at hd ⊢
      exact (readElf_data_eq_nil_iff hs.read_eq (List.getElem_mem hl)).mp hd
    · rw [ElfFile.sec_of_le _ (by omega)]
      exact .inl rfl
  · rw [h]
    exact .inr rfl

end Stages.Follows

/-- A run that got through P11 from a `NULL` first section with no size, with an output
below 4 GiB: the runs on which every payload is laid out. -/
structure LaidOutRun (z : Zlib) (file : List UInt8) (s : Stages) (f₁₀ f₁₁ : ElfFile) : Prop where
  follows : s.Follows z file
  null : (s.read.sec 0).header.type = SHT_NULL
  size : (s.read.sec 0).header.size = 0
  deflated : deflateSections z s.headed = .ok f₁₀
  laidOut : calculateSectionOffsets f₁₀ = .ok f₁₁
  fit : 64 + alignUp (40 * f₁₀.sections.length) 64 +
    payloadSpan f₁₀ (List.range f₁₀.sections.length) < 2 ^ 32

namespace LaidOutRun

variable {z : Zlib} {file : List UInt8} {s : Stages} {f₁₀ f₁₁ : ElfFile}
  (hr : LaidOutRun z file s f₁₀ f₁₁)
include hr

theorem length_deflated : f₁₀.sections.length = s.read.sections.length + 2 := by
  rw [← (deflateSections_eq_ok hr.deflated).2.length_eq, hr.follows.length_headed]

theorem length_laidOut : f₁₁.sections.length = s.read.sections.length + 2 := by
  rw [(calculateSectionOffsets_frame hr.laidOut).2.1, hr.length_deflated]

theorem header_laidOut : f₁₁.header = s.headed.header :=
  (calculateSectionOffsets_frame hr.laidOut).1.trans (deflateSections_eq_ok hr.deflated).1

/-- The file P11 returns is written without overlap and read back by `readElf`'s section
loop. -/
theorem readBack : (rplWrites f₁₁).Pairwise Apart ∧ PayloadsSized f₁₁ := by
  have hs := hr.follows
  have hready := (hs.layoutReady_headed hr.null hr.size).deflateSections hr.deflated
  have hsh : f₁₀.header.shoff = 64 := by
    rw [(deflateSections_eq_ok hr.deflated).1]
    exact hs.headed_header.1
  have hfit' := payloadStart_fit hsh hr.fit
  have hfit := hr.fit
  refine ⟨laidOut_writes_apart hr.laidOut hfit' hready hsh (by omega),
    payloadsSized_of_laidOut hr.laidOut hfit' (fun _ => hready.mem_traversal) fun i ht hd => ?_⟩
  have hlen : f₁₀.sections.length = s.placed.sections.length + 2 := hready.length
  rcases lt_or_ge i s.placed.sections.length with hi | hi
  · obtain ⟨-, htype, hempty, hkeep⟩ := deflateSections_sec hr.deflated i
    have hkeep' := hkeep (.inl (by rw [hempty.mp hd]; decide))
    rw [hkeep'] at hd ⊢
    have hlaid : (s.headed.sec i).header.type ∉ laidOutTypes := fun hl => ht
      (mem_traversal.mpr (.inr (.inr ⟨by omega, by rw [← hkeep'] at hl; exact hl⟩)))
    obtain ⟨i', -, hc⟩ := hs.content_headed (show i < s.read.sections.length by
      rw [← hs.length_placed]; exact hi)
    have hty := hc.2.1
    have hne : ∀ t ∈ laidOutTypes, (s.bss.sec i').header.type ≠ t := fun t ht' he =>
      hlaid (by rw [hty, he]; exact ht')
    obtain ⟨hz, hdat⟩ := hc.2.2 (hne _ (by decide)) (hne _ (by decide))
    rw [hz, hty]
    exact hs.bss_sized i' (hdat ▸ hd)
  · rcases Nat.lt_or_ge i (s.placed.sections.length + 2) with hi' | hi'
    · rcases Nat.lt_succ_iff_lt_or_eq.mp hi' with hi' | rfl
      · obtain rfl : i = s.placed.sections.length := by omega
        exact absurd (mem_traversal.mpr (.inl hready.crcs_index)) ht
      · exact absurd (mem_traversal.mpr (.inr (.inl hready.fileInfo_index))) ht
    · rw [ElfFile.sec_of_le _ (by omega)]
      exact .inl rfl

end LaidOutRun

/-- `textFile`'s run lays every payload out. -/
theorem textRun : LaidOutRun sampleZlib (writeRpl textFile) textStages textDeflated textLaidOut :=
  ⟨textStages_follows, rfl, rfl, textDeflated_eq, textLaidOut_eq, by decide⟩

/-- On a run that lays every payload out and ends with fewer than 65536 sections, `readElf`
gets through the written file up to the names: the file header reads back and passes the
checks on the identification fields, and the section loop reads back every section header
and payload of the final file from the slots of the header table. -/
theorem written_file_reads_back {z : Zlib} {file : List UInt8} {s : Stages} {f₁₀ f₁₁ : ElfFile}
    (hr : LaidOutRun z file s f₁₀ f₁₁) (hcount : s.read.sections.length + 2 < 65536) :
    52 ≤ (writeRpl f₁₁).length ∧ Header.decode (writeRpl f₁₁) = f₁₁.header ∧
      checkHeader f₁₁.header = .ok () ∧
      readSections (writeRpl f₁₁) f₁₁.header = f₁₁.sections.map fun s => (s.header, s.data) := by
  obtain ⟨hw, hp⟩ := hr.readBack
  obtain ⟨h, e9, -, hshnum, -, hmagic, hclass, henc, hmach, hver⟩ := fixFileHeader_eq s.withCrcs
  rw [hr.follows.headed_eq, Except.ok.injEq] at e9
  have hhead : f₁₁.header = h := by rw [hr.header_laidOut, e9]
  have hn : f₁₁.header.shnum.toNat = f₁₁.sections.length := by
    rw [hhead, hshnum, u16_toNat_ofNat, ← hr.follows.sections_headed, hr.follows.length_headed,
      hr.length_laidOut]
    exact Nat.mod_eq_of_lt hcount
  have hcheck : checkHeader f₁₁.header = .ok () := by
    rw [hhead]
    simp [checkHeader, hmagic, hclass, henc, hmach, hver]
  exact ⟨(decode_writeRpl hw).1, (decode_writeRpl hw).2, hcheck, readSections_writeRpl hw hp hn⟩

theorem written_file_reads_back_textFile :
    LaidOutRun sampleZlib (writeRpl textFile) textStages textDeflated textLaidOut ∧
      textStages.read.sections.length + 2 < 65536 ∧
      52 ≤ (writeRpl textLaidOut).length ∧ Header.decode (writeRpl textLaidOut) = textLaidOut.header ∧
      checkHeader textLaidOut.header = .ok () ∧
      readSections (writeRpl textLaidOut) textLaidOut.header =
        textLaidOut.sections.map fun s => (s.header, s.data) :=
  ⟨textRun, by decide, written_file_reads_back textRun (by decide)⟩

/-- On a run that lays every payload out, where the written header table locates the payload
of a section other than a symbol table, a `RELA` table or a `NOBITS` section, the turn of
`readElf`'s section loop at that slot reads, and leaves the stream good at the next slot,
the payload of the input section it came from, or, from 24 bytes on, that payload's size as
a big-endian word followed by zlib's stream of it. -/
theorem written_payloads {z : Zlib} {file : List UInt8} {s : Stages} {f₁₀ f₁₁ : ElfFile}
    (hr : LaidOutRun z file s f₁₀ f₁₁) {j : Nat} (hj : j < s.read.sections.length)
    (hty : (f₁₁.sec j).header.type ∉ [SHT_SYMTAB, SHT_RELA, SHT_NOBITS]) :
    ∃ i, (sectionMap s.bss)[j]? = some i ∧
      readSection (writeRpl f₁₁) ⟨f₁₁.header.shoff.toNat + 40 * j, true⟩ =
        (((f₁₁.sec j).header, (f₁₁.sec j).data), ⟨f₁₁.header.shoff.toNat + 40 * (j + 1), true⟩) ∧
      ((s.read.sec i).data.length < DeflateMinSectionSize →
        (f₁₁.sec j).data = (s.read.sec i).data) ∧
      (DeflateMinSectionSize ≤ (s.read.sec i).data.length → ∃ C,
        z.compress (s.read.sec i).data = some C ∧
          (f₁₁.sec j).data = beBytes 4 (s.read.sec i).data.length ++ C) := by
  have hs := hr.follows
  obtain ⟨hw, hp⟩ := hr.readBack
  have hj11 : j < f₁₁.sections.length := by rw [hr.length_laidOut]; omega
  have hread := readSection_writeRpl hw hp hj11
  rw [← ElfFile.sec_eq_getElem _ hj11] at hread
  have ht11 : (f₁₁.sec j).header.type = (f₁₀.sec j).header.type :=
    congrArg (·.1.type) ((calculateSectionOffsets_frame hr.laidOut).2.2 j)
  have hd11 := laidOut_data hr.laidOut j
  have htj : (s.headed.sec j).header.type ∉ [SHT_SYMTAB, SHT_RELA, SHT_NOBITS] := by
    rwa [ht11, (deflateSections_sec hr.deflated j).2.1] at hty
  obtain ⟨i, hσ, hc⟩ := hs.content_headed hj
  /- The section is not the `.bss` P2 emptied, which would be `NOBITS`. -/
  have hcr : SameContent (s.read.sec i) (s.headed.sec j) := by
    rcases fixBssNoBits_sec hs.bss_eq i with h | ⟨-, -, h⟩
    · rwa [h] at hc
    · rw [h] at hc
      exact (htj (by rw [hc.2.1, clearBss_type]; decide)).elim
  obtain ⟨-, hdat⟩ := hcr.2.2 (fun h => htj (by rw [hcr.2.1, h]; decide))
    (fun h => htj (by rw [hcr.2.1, h]; decide))
  have hset := (hs.layoutReady_headed hr.null hr.size).settled j
    (by rw [hs.length_placed]; exact hj)
  have hkeep : keepsPayload (s.headed.sec j) ↔
      (s.read.sec i).data.length < DeflateMinSectionSize := by
    rw [← hdat]
    exact ⟨fun h => h.resolve_right (not_or.mpr ⟨hset.1, hset.2.1⟩), .inl⟩
  refine ⟨i, hσ, hread, fun hlt => ?_, fun hge => ?_⟩
  · rcases deflateSection_cases (deflateSection_sec hr.deflated j) with ⟨-, he⟩ | ⟨hk, -⟩
    · rw [hd11, he, hdat]
    · exact absurd (hkeep.mpr hlt) hk
  · rcases deflateSection_cases (deflateSection_sec hr.deflated j) with ⟨hk, -⟩ | ⟨-, C, hC, he⟩
    · exact absurd (hkeep.mp hk) (by omega)
    · rw [hdat] at hC
      exact ⟨C, hC, by rw [hd11, he, withDeflatedPayload, hdat]⟩

set_option maxRecDepth 10000 in
theorem written_payloads_textFile :
    LaidOutRun sampleZlib (writeRpl textFile) textStages textDeflated textLaidOut ∧
      1 < textStages.read.sections.length ∧
      (textLaidOut.sec 1).header.type ∉ [SHT_SYMTAB, SHT_RELA, SHT_NOBITS] ∧
      ∃ i, (sectionMap textStages.bss)[1]? = some i ∧
        readSection (writeRpl textLaidOut) ⟨textLaidOut.header.shoff.toNat + 40 * 1, true⟩ =
          (((textLaidOut.sec 1).header, (textLaidOut.sec 1).data),
            ⟨textLaidOut.header.shoff.toNat + 40 * (1 + 1), true⟩) ∧
        ((textStages.read.sec i).data.length < DeflateMinSectionSize →
          (textLaidOut.sec 1).data = (textStages.read.sec i).data) ∧
        (DeflateMinSectionSize ≤ (textStages.read.sec i).data.length → ∃ C,
          sampleZlib.compress (textStages.read.sec i).data = some C ∧
            (textLaidOut.sec 1).data = beBytes 4 (textStages.read.sec i).data.length ++ C) :=
  have hty : (textLaidOut.sec 1).header.type ∉ [SHT_SYMTAB, SHT_RELA, SHT_NOBITS] := by decide
  ⟨textRun, by decide, hty, written_payloads textRun (by decide) hty⟩

end Elf2Rpl
