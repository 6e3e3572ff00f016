import Elf2Rpl.Pipeline.Layout

/-! # The CRC table and the header of the written file

P10 and P11 keep every section in its place, so the table P8 built still sits before the
last section and lists, for every section of the final list, the CRC of its payload
before compression, with 0 at its own index (`crc_table_entries`).

`fixFileHeader` does not take the section count and the name-table index from the
passes before it but recomputes them. The count is cast to `uint16_t`, which wraps for
an input of 65534 or 65535 sections (`shnum_of_section_count`, `shnum_wideFile`). The
index is that of the first section named `.shstrtab`, which is the name table P3
remapped exactly when that table is the first section of that name
(`shstrndx_of_name_lookup`, `shstrndx_namesFile`).
-/

namespace Elf2Rpl

open elf

/-- The layout pass keeps each section's name and type. -/
theorem laidOut_name_type {g g' : ElfFile} (h : calculateSectionOffsets g = .ok g') (i : Nat) :
    (g'.sec i).name = (g.sec i).name ∧ (g'.sec i).header.type = (g.sec i).header.type :=
  have hk := (calculateSectionOffsets_frame h).2.2 i
  ⟨congrArg (·.2.1) hk, congrArg (·.1.type) hk⟩

/-- After the last two passes the CRC table is the section before the last, with one
entry per section of the final list: 0 at its own index and, at every other index, zlib's
CRC-32 of the payload `deflateSections` was handed for that section, or 0 if that payload
is empty. The sections keep the names and types they had after P8. -/
theorem crc_table_entries {z : Zlib} {file : List UInt8} {s : Stages} {f₁₀ f₁₁ : ElfFile}
    (hs : s.Follows z file) (h10 : deflateSections z s.headed = .ok f₁₀)
    (h11 : calculateSectionOffsets f₁₀ = .ok f₁₁) :
    f₁₁.sections.length = s.withCrcs.sections.length ∧
    (∀ i, (f₁₁.sec i).name = (s.withCrcs.sec i).name ∧
      (f₁₁.sec i).header.type = (s.withCrcs.sec i).header.type) ∧
    ∃ crcs : List UInt32,
      (f₁₁.sec (f₁₁.sections.length - 2)).header.type = SHT_RPL_CRCS ∧
      (f₁₁.sec (f₁₁.sections.length - 2)).data = Layout.u32.encodeAll crcs ∧
      crcs.length = f₁₁.sections.length ∧ crcs[f₁₁.sections.length - 2]? = some 0 ∧
      ∀ i < f₁₁.sections.length, i ≠ f₁₁.sections.length - 2 →
        crcs[i]? = some (if (s.headed.sec i).data = [] then 0 else z.crc32 (s.headed.sec i).data) := by
  obtain ⟨crcs, hsec, hcrcs⟩ := hs.headed_sections
  have hw : ∀ i, s.headed.sec i = s.withCrcs.sec i := fun i => by
    rw [ElfFile.sec, ElfFile.sec, hs.sections_headed]
  have hl : f₁₁.sections.length = s.headed.sections.length := by
    rw [(calculateSectionOffsets_frame h11).2.1, (deflateSections_eq_ok h10).2.length_eq]
  have hm : f₁₁.sections.length - 2 = s.placed.sections.length := by simp [hl, hsec]
  have hcrc : s.headed.sec s.placed.sections.length = crcSection crcs := by
    rw [ElfFile.sec, hsec, List.getD_append_right _ _ _ _ le_rfl, Nat.sub_self]
    rfl
  have hkeep := (deflateSections_sec h10 _).2.2.2 (by rw [hcrc]; exact .inr (.inl rfl))
  refine ⟨by rw [hl, hs.sections_headed], fun i => ?_, crcs, ?_, ?_, ?_, ?_, fun i hi hne => ?_⟩
  · obtain ⟨hn, ht⟩ := laidOut_name_type h11 i
    obtain ⟨hn', ht', -⟩ := deflateSections_sec h10 i
    rw [hn, ht, hn', ht', hw]
    exact ⟨rfl, rfl⟩
  · rw [hm, (laidOut_name_type h11 _).2, hkeep, hcrc]
    rfl
  · rw [hm, laidOut_data h11, hkeep, hcrc]
    rfl
  · rw [hcrcs, List.length_set, List.length_map, hl]
  · rw [hm, hcrcs, List.getElem?_set_self (by simp [hsec])]
  · have hi' : i < s.headed.sections.length := hl ▸ hi
    rw [hcrcs, List.getElem?_set_ne (by omega), List.getElem?_map, List.getElem?_eq_getElem hi',
      ElfFile.sec_eq_getElem _ hi', Option.map_some', sectionCrc_eq]

set_option maxRecDepth 10000 in
/-- On `textFile` the table is section 3 of five, and the entry of `.text` is the CRC of its
four bytes, which `sampleZlib` takes to be 4. -/
theorem crc_table_entries_textFile :
    textStages.Follows sampleZlib (writeRpl textFile) ∧
      deflateSections sampleZlib textStages.headed = .ok textDeflated ∧
      calculateSectionOffsets textDeflated = .ok textLaidOut ∧
      ∃ crcs : List UInt32, (textLaidOut.sec 3).data = Layout.u32.encodeAll crcs ∧
        crcs.length = 5 ∧ crcs[3]? = some 0 ∧ crcs[1]? = some 4 := by
  obtain ⟨-, -, crcs, -, hd, hlen, hself, hent⟩ :=
    crc_table_entries textStages_follows textDeflated_eq textLaidOut_eq
  have h5 : textLaidOut.sections.length = 5 := by decide
  rw [h5] at hd hlen hself hent
  refine ⟨textStages_follows, textDeflated_eq, textLaidOut_eq, crcs, hd, hlen, hself, ?_⟩
  rw [hent 1 (by decide) (by decide)]
  decide

/-- P2 to P6 keep the number of sections and P7 and P8 add one each; `fixFileHeader`
writes the count modulo 2^16, and so the count of the headers `writeRpl` writes
exactly when the input has at most 65533 sections. -/
theorem shnum_of_section_count {z : Zlib} {file : List UInt8} {s : Stages} {f₁₀ f₁₁ : ElfFile}
    (hs : s.Follows z file) (h10 : deflateSections z s.headed = .ok f₁₀)
    (h11 : calculateSectionOffsets f₁₀ = .ok f₁₁) :
    s.headed.sections.length = s.read.sections.length + 2 ∧
      f₁₁.sections.length = s.headed.sections.length ∧
      f₁₁.header.shnum.toNat = (s.read.sections.length + 2) % 2 ^ 16 ∧
      (f₁₁.header.shnum.toNat = f₁₁.sections.length ↔ s.read.sections.length ≤ 65533) := by
  obtain ⟨hh, hl, -⟩ := calculateSectionOffsets_frame h11
  have hl' : f₁₁.sections.length = s.headed.sections.length := by
    rw [hl, (deflateSections_eq_ok h10).2.length_eq]
  have hshnum : f₁₁.header.shnum.toNat = (s.read.sections.length + 2) % 2 ^ 16 := by
    rw [hh, (deflateSections_eq_ok h10).1, hs.headed_header.2.1, u16_toNat_ofNat, hs.length_headed]
  have := hs.length_read_lt
  refine ⟨hs.length_headed, hl', hshnum, ?_⟩
  rw [hshnum, hl', hs.length_headed]
  constructor <;> intro h <;> omega

theorem shnum_of_section_count_textFile :
    textStages.Follows sampleZlib (writeRpl textFile) ∧
      deflateSections sampleZlib textStages.headed = .ok textDeflated ∧
      calculateSectionOffsets textDeflated = .ok textLaidOut ∧
      textLaidOut.header.shnum.toNat = textLaidOut.sections.length :=
  ⟨textStages_follows, textDeflated_eq, textLaidOut_eq,
    (shnum_of_section_count textStages_follows textDeflated_eq textLaidOut_eq).2.2.2.mpr
      (by decide)⟩

/-- The name table of `wideFile`: the empty name, after the 65534 section headers. -/
def wideNames : Section := ⟨⟨0, SHT_STRTAB, 0, 0, 2621424, 1, 0, 0, 0, 0⟩, [], [0]⟩

/-- An empty `NOBITS` section with the empty name. -/
def emptyBss : Section := ⟨⟨0, SHT_NOBITS, 0, 0, 0, 0, 0, 0, 0, 0⟩, [], []⟩

/-- A file of 65534 sections: the null section, the name table and 65532 empty `NOBITS`
sections. -/
def wideFile : ElfFile :=
  ⟨{ magic := HeaderMagic, fileClass := 1, encoding := 2, elfVersion := 1, abi := 0, type := 2,
      machine := 20, version := 1, entry := 0, phoff := 0, shoff := 64, flags := 0, ehsize := 52,
      phentsize := 0, phnum := 0, shentsize := 40, shnum := 65534, shstrndx := 1 },
    default :: wideNames :: List.replicate 65532 emptyBss⟩

theorem wideFile_sections :
    wideFile.sections = default :: wideNames :: List.replicate 65532 emptyBss := rfl

theorem length_wideFile : wideFile.sections.length = 65534 := by
  rw [wideFile_sections, List.length_cons, List.length_cons, List.length_replicate]

theorem mem_wideFile {s : Section} (h : s ∈ wideFile.sections) :
    s = default ∨ s = wideNames ∨ s = emptyBss := by
  rw [wideFile_sections, List.mem_cons, List.mem_cons, List.mem_replicate] at h
  rcases h with h | h | ⟨-, h⟩
  exacts [.inl h, .inr (.inl h), .inr (.inr h)]

theorem wideFile_readable : Readable wideFile where
  check := rfl
  shnum := by rw [length_wideFile]; rfl
  shstrndx := by rw [length_wideFile]; decide
  names s hs := by rcases mem_wideFile hs with rfl | rfl | rfl <;> rfl
  payload s hs := by rcases mem_wideFile hs with rfl | rfl | rfl <;> decide
  apart := by
    have hf : wideFile.sections.filter (fun s => s.data.length ≠ 0) = [wideNames] := by
      rw [wideFile_sections, List.filter_cons_of_neg (by decide), List.filter_cons_of_pos (by decide),
        List.filter_replicate_of_neg (by decide)]
    rw [apart_rplWrites_iff, rplRanges, hf, length_wideFile]
    decide

theorem fixBssNoBits_wideFile : fixBssNoBits wideFile = .ok wideFile := by
  refine fixBssNoBits_of_none ?_
  rw [getSectionByName_eq, List.findIdx?_eq_none_iff]
  intro s hs
  rcases mem_wideFile hs with rfl | rfl | rfl <;> rfl

theorem sectionMap_wideFile_perm : (sectionMap wideFile).Perm (List.range wideFile.sections.length) := by
  refine (sectionMap_perm_iff _).mpr ⟨by rw [length_wideFile]; decide, rfl, fun i hi hn => ?_⟩
  obtain ⟨j, rfl⟩ : ∃ j, i = j + 1 := ⟨i - 1, by omega⟩
  cases j with
  | zero => rfl
  | succ j =>
    have hj : j < 65532 := by rw [length_wideFile] at hn; omega
    rw [bucketedAt, wideFile_sections, List.getD_cons_succ, List.getD_cons_succ,
      List.getD_eq_getElem _ _ (by rw [List.length_replicate]; exact hj), List.getElem_replicate]
    rfl

theorem referencesInRange_wideFile : referencesInRange wideFile = true := by
  refine referencesInRange_iff.mpr ⟨by rw [length_wideFile]; decide, fun s hs => ?_⟩
  rw [length_wideFile]
  rcases mem_wideFile hs with rfl | rfl | rfl <;>
    exact ⟨by decide, fun h => absurd h (by decide), fun h => absurd h (by decide)⟩

theorem fixRelocations_reordered_wideFile :
    fixRelocations (reordered wideFile) = .ok (reordered wideFile) := by
  refine fixRelocations_of_no_rela _ fun s hs => ?_
  obtain ⟨j, hj, rfl⟩ := List.getElem_of_mem hs
  obtain ⟨i, -, hi, hr⟩ := (reindexed_reordered sectionMap_wideFile_perm
    (by rw [length_wideFile]; decide) referencesInRange_wideFile).sections j hj
  rw [hr.type_eq]
  rcases mem_wideFile (List.getElem_mem hi) with h | h | h <;> rw [h] <;> decide

/-- On `wideFile` the whole run succeeds and writes 65536 section headers, but
`fixFileHeader` writes `shnum = 0`. -/
theorem shnum_wideFile :
    (stagesFrom sampleZlib wideFile).Follows sampleZlib (writeRpl wideFile) ∧
      wideFile.sections.length = 65534 ∧
      ∃ f₁₀ f₁₁, deflateSections sampleZlib (stagesFrom sampleZlib wideFile).headed = .ok f₁₀ ∧
        calculateSectionOffsets f₁₀ = .ok f₁₁ ∧
        f₁₁.sections.length = 65536 ∧ f₁₁.header.shnum = 0 := by
  have hs := follows_stagesFrom (z := sampleZlib) (readElf_writeRpl wideFile_readable)
    fixBssNoBits_wideFile
    (reorderSectionIndex_eq_ok_iff.mpr ⟨sectionMap_wideFile_perm, referencesInRange_wideFile, rfl⟩)
    fixRelocations_reordered_wideFile
  obtain ⟨f₁₀, h10⟩ := deflateSections_ok (z := sampleZlib) (fun _ => rfl) _
  obtain ⟨f₁₁, h11, -⟩ := calculateSectionOffsets_spec f₁₀
  obtain ⟨hh, hl, -⟩ := calculateSectionOffsets_frame h11
  have hread : (stagesFrom sampleZlib wideFile).read = wideFile := rfl
  have hheaded : (stagesFrom sampleZlib wideFile).headed.sections.length = 65536 := by
    rw [hs.length_headed, hread, length_wideFile]
  refine ⟨hs, length_wideFile, f₁₀, f₁₁, h10, h11, ?_, ?_⟩
  · rw [hl, ← (deflateSections_eq_ok h10).2.length_eq, hheaded]
  · rw [hh, (deflateSections_eq_ok h10).1, hs.headed_header.2.1, hheaded]
    rfl

/-- A lookup by name sees only the names, and names appended after the sections it
finds, or that differ from the one it looks for, do not change it. -/
theorem getSectionIndex_of_names {f f' : ElfFile} {name : List UInt8} {r : List Section}
    (h : f'.sections.map Section.name = f.sections.map Section.name ++ r.map Section.name)
    (hr : ∀ t ∈ r, t.name ≠ name) : getSectionIndex f' name = getSectionIndex f name := by
  have hmap : ∀ l : List Section,
      l.findIdx? (·.name == name) = (l.map Section.name).findIdx? (· == name) :=
    fun l => by rw [List.findIdx?_map]; rfl
  have hnone : (r.map Section.name).findIdx? (· == name) = none :=
    List.findIdx?_eq_none_iff.mpr fun x hx => by
      obtain ⟨t, ht, rfl⟩ := List.mem_map.mp hx
      simpa using hr t ht
  unfold getSectionIndex
  rw [hmap, hmap, h, List.findIdx?_append, hnone, Option.map_none', Option.or_none]

theorem getSectionIndex_bounds (f : ElfFile) (name : List UInt8) :
    -1 ≤ getSectionIndex f name ∧ getSectionIndex f name < f.sections.length := by
  unfold getSectionIndex
  split
  · next i h =>
    have := (List.findIdx?_eq_some_iff_getElem.mp h).1
    omega
  · omega

/-- `fixFileHeader` writes the index of the first section of the reordered file named
`.shstrtab`, or `0xFFFF` when there is none; P3 moved the name table to the index
`sectionMap` sends back to the input's `shstrndx`. The two agree exactly when the name
table is the first section named `.shstrtab`. -/
theorem shstrndx_of_name_lookup {z : Zlib} {file : List UInt8} {s : Stages}
    (hs : s.Follows z file) :
    s.headed.header.shstrndx = u16OfInt (getSectionIndex s.reordered (ascii ".shstrtab")) ∧
      (sectionMap s.bss)[s.reordered.header.shstrndx.toNat]? = some s.read.header.shstrndx.toNat ∧
      (s.headed.header.shstrndx = s.reordered.header.shstrndx ↔
        getSectionIndex s.reordered (ascii ".shstrtab") = s.reordered.header.shstrndx.toNat) := by
  obtain ⟨crcs, hsec, -⟩ := hs.headed_sections
  have h1 : s.headed.header.shstrndx = u16OfInt (getSectionIndex s.reordered (ascii ".shstrtab")) := by
    rw [hs.headed_header.2.2, getSectionIndex_of_names (r := [crcSection crcs, fileInfoSection _])]
    · rw [← hs.sections_headed, hsec, List.map_append, hs.names_placed]
    · intro t ht
      rcases List.mem_pair.mp ht with rfl | rfl <;>
        exact (by decide : ([] : List UInt8) ≠ ascii ".shstrtab")
  have h2 : (sectionMap s.bss)[s.reordered.header.shstrndx.toNat]? =
      some s.read.header.shstrndx.toNat := by
    rw [← (fixBssNoBits_eq_ok hs.bss_eq).1]
    exact hs.reindexed.shstrndx
  have hlt : s.reordered.header.shstrndx.toNat < s.read.sections.length := by
    have h := (List.getElem?_eq_some_iff.mp h2).1
    rwa [hs.reorder_spec.1.length_eq, List.length_range, hs.length_bss] at h
  have hb := getSectionIndex_bounds s.reordered (ascii ".shstrtab")
  rw [hs.length_reordered] at hb
  have := hs.length_read_lt
  rw [h1]
  exact ⟨rfl, h2, u16OfInt_eq_iff hb.1 (by omega) (by omega)⟩

theorem shstrndx_of_name_lookup_textFile :
    textStages.Follows sampleZlib (writeRpl textFile) ∧
      textStages.headed.header.shstrndx = textStages.reordered.header.shstrndx :=
  ⟨textStages_follows, ((shstrndx_of_name_lookup textStages_follows).2.2).mpr rfl⟩

/-- `textFile` with its name table named `.names`. -/
def namesFile : ElfFile :=
  ⟨textFile.header,
    [default,
     ⟨⟨1, SHT_PROGBITS, 6, 0x02000000, 184, 4, 0, 0, 0, 0⟩, ascii ".text", [0x60, 0, 0, 0]⟩,
     ⟨⟨7, SHT_STRTAB, 0, 0, 188, 14, 0, 0, 0, 0⟩, ascii ".names",
        0 :: ascii ".text" ++ 0 :: ascii ".names" ++ [0]⟩]⟩

theorem namesFile_readable : Readable namesFile where
  check := rfl
  shnum := rfl
  shstrndx := by decide
  names := by
    intro s hs
    simp only [namesFile, List.mem_cons, List.mem_singleton, List.not_mem_nil, or_false] at hs
    rcases hs with rfl | rfl | rfl <;> rfl
  payload := by decide
  apart := (apart_rplWrites_iff _).mpr (by decide)

/-- With the name table not named `.shstrtab`, P3 keeps it at index 2 but
`fixFileHeader` writes `shstrndx = 0xFFFF`. -/
theorem shstrndx_namesFile :
    (stagesFrom sampleZlib namesFile).Follows sampleZlib (writeRpl namesFile) ∧
      (namesFile.sec 0).header.type = SHT_NULL ∧
      (stagesFrom sampleZlib namesFile).reordered.header.shstrndx = 2 ∧
      (stagesFrom sampleZlib namesFile).headed.header.shstrndx = 0xFFFF :=
  ⟨follows_stagesFrom (readElf_writeRpl namesFile_readable) rfl rfl rfl, rfl, rfl, rfl⟩

end Elf2Rpl
