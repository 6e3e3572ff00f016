import Elf2Rpl.Tool.Write
import Elf2Rpl.Tool.Bss
import Elf2Rpl.Tool.Relocations

/-! # The pipeline

`main` reads the ELF file, runs the passes in their fixed order, stops at the first one
that fails, and writes the RPL file (`elf2rpl`). `Stages` holds the file after each pass
up to `fixFileHeader`, and `Stages.Follows` says they are what the passes returned; by
`elf2rpl_eq_ok` a successful run is such stages followed by the last two passes and the
writer.

P5 to P9 never fail (`follows_stagesFrom`). The lemmas of this module carry what each
pass module proves about its own pass along a run: P2 to P6 keep the number of sections
and P7 and P8 add one each (`length_headed`); the sections after P6 have the names of the
reordered file (`names_placed`); and the table and the record sit at the end
(`headed_sections`).
-/

namespace Elf2Rpl

open elf

/-- `main` after the argument check. On success the result is the bytes `writeRpl`
writes; the messages it prints on failure and its exit codes are not modelled. -/
def elf2rpl (z : Zlib) (file : List UInt8) : Except Fault (List UInt8) := do
  let f ← readElf file
  let f ← fixBssNoBits f
  let f ← reorderSectionIndex f
  let f ← fixRelocations f
  let f ← fixSectionAlign f
  let f ← fixLoaderVirtualAddresses f
  let f ← generateFileInfoSection f
  let f ← generateCrcSection z f
  let f ← fixFileHeader f
  let f ← deflateSections z f
  let f ← calculateSectionOffsets f
  pure (writeRpl f)

/-- The file after each pass of `main` up to `fixFileHeader`. -/
structure Stages where
  read : ElfFile
  bss : ElfFile
  reordered : ElfFile
  relocated : ElfFile
  aligned : ElfFile
  placed : ElfFile
  withFileInfo : ElfFile
  withCrcs : ElfFile
  headed : ElfFile

/-- The stages of a run of `main` on `file` that got through `fixFileHeader`: each is
what its pass returned on the stage before. -/
structure Stages.Follows (s : Stages) (z : Zlib) (file : List UInt8) : Prop where
  read_eq : readElf file = .ok s.read
  bss_eq : fixBssNoBits s.read = .ok s.bss
  reordered_eq : reorderSectionIndex s.bss = .ok s.reordered
  relocated_eq : fixRelocations s.reordered = .ok s.relocated
  aligned_eq : fixSectionAlign s.relocated = .ok s.aligned
  placed_eq : fixLoaderVirtualAddresses s.aligned = .ok s.placed
  withFileInfo_eq : generateFileInfoSection s.placed = .ok s.withFileInfo
  withCrcs_eq : generateCrcSection z s.withFileInfo = .ok s.withCrcs
  headed_eq : fixFileHeader s.withCrcs = .ok s.headed

/-- A run of `main` succeeds exactly when it gets through `fixFileHeader` and
`deflateSections`; it then writes the file `calculateSectionOffsets` lays out. -/
theorem elf2rpl_eq_ok {z : Zlib} {file out : List UInt8} :
    elf2rpl z file = .ok out ↔ ∃ s : Stages, s.Follows z file ∧ ∃ f₁₀ f₁₁,
      deflateSections z s.headed = .ok f₁₀ ∧ calculateSectionOffsets f₁₀ = .ok f₁₁ ∧
        out = writeRpl f₁₁ := by
  simp only [elf2rpl, bind_eq_ok]
  constructor
  · rintro ⟨f₁, h₁, f₂, h₂, f₃, h₃, f₄, h₄, f₅, h₅, f₆, h₆, f₇, h₇, f₈, h₈, f₉, h₉, f₁₀, h₁₀,
      f₁₁, h₁₁, h⟩
    exact ⟨⟨f₁, f₂, f₃, f₄, f₅, f₆, f₇, f₈, f₉⟩, ⟨h₁, h₂, h₃, h₄, h₅, h₆, h₇, h₈, h₉⟩, f₁₀, f₁₁,
      h₁₀, h₁₁, (Except.ok.inj h).symm⟩
  · rintro ⟨s, ⟨h₁, h₂, h₃, h₄, h₅, h₆, h₇, h₈, h₉⟩, f₁₀, f₁₁, h₁₀, h₁₁, rfl⟩
    exact ⟨_, h₁, _, h₂, _, h₃, _, h₄, _, h₅, _, h₆, _, h₇, _, h₈, _, h₉, _, h₁₀, _, h₁₁, rfl⟩

/-- The file a pass returned, and the default file after a failure. -/
def resultOf (o : Outcome) : ElfFile := o.toOption.getD ⟨default, []⟩

theorem resultOf_eq {o : Outcome} {f : ElfFile} (h : o = .ok f) : resultOf o = f := by
  rw [h]
  rfl

theorem eq_ok_resultOf {o : Outcome} {f : ElfFile} (h : o = .ok f) : o = .ok (resultOf o) := by
  rw [resultOf_eq h]
  exact h

/-- The stages of a run of `main` whose `readElf` returned `f`, each pass run on the
stage before. -/
def stagesFrom (z : Zlib) (f : ElfFile) : Stages :=
  let bss := resultOf (fixBssNoBits f)
  let reordered := resultOf (reorderSectionIndex bss)
  let relocated := resultOf (fixRelocations reordered)
  let aligned := resultOf (fixSectionAlign relocated)
  let placed := resultOf (fixLoaderVirtualAddresses aligned)
  let withFileInfo := resultOf (generateFileInfoSection placed)
  let withCrcs := resultOf (generateCrcSection z withFileInfo)
  ⟨f, bss, reordered, relocated, aligned, placed, withFileInfo, withCrcs,
    resultOf (fixFileHeader withCrcs)⟩

/-- P5 to P9 never fail: a run that gets through `fixRelocations` gets through
`fixFileHeader`. -/
theorem follows_stagesFrom {z : Zlib} {file : List UInt8} {f₁ f₂ f₃ f₄ : ElfFile}
    (h₁ : readElf file = .ok f₁) (h₂ : fixBssNoBits f₁ = .ok f₂)
    (h₃ : reorderSectionIndex f₂ = .ok f₃) (h₄ : fixRelocations f₃ = .ok f₄) :
    (stagesFrom z f₁).Follows z file where
  read_eq := h₁
  bss_eq := eq_ok_resultOf h₂
  reordered_eq := by simp only [stagesFrom, resultOf_eq h₂]; exact eq_ok_resultOf h₃
  relocated_eq := by simp only [stagesFrom, resultOf_eq h₂, resultOf_eq h₃]; exact eq_ok_resultOf h₄
  aligned_eq := by simp only [stagesFrom]; exact eq_ok_resultOf rfl
  placed_eq := by simp only [stagesFrom]; exact eq_ok_resultOf rfl
  withFileInfo_eq := by simp only [stagesFrom]; exact eq_ok_resultOf rfl
  withCrcs_eq := by
    simp only [stagesFrom]
    rw [resultOf_eq (rfl : generateFileInfoSection _ = .ok _)]
    exact eq_ok_resultOf (if_neg (by simp))
  headed_eq := by simp only [stagesFrom]; exact eq_ok_resultOf rfl

/-- Files of one length whose sections agree on a projection, section by section, agree
on it as lists. -/
theorem map_eq_of_sec {β : Type} (p : Section → β) {f g : ElfFile}
    (hl : g.sections.length = f.sections.length) (h : ∀ i, p (g.sec i) = p (f.sec i)) :
    g.sections.map p = f.sections.map p :=
  List.ext_getElem (by simp [hl]) fun i h₁ h₂ => by
    simpa [ElfFile.sec_eq_getElem _ (by simpa using h₁),
      ElfFile.sec_eq_getElem _ (by simpa using h₂)] using h i

namespace Stages.Follows

variable {z : Zlib} {file : List UInt8} {s : Stages} (hs : s.Follows z file)
include hs

theorem length_read_lt : s.read.sections.length < 2 ^ 16 := readElf_length_lt hs.read_eq

theorem length_bss : s.bss.sections.length = s.read.sections.length :=
  (fixBssNoBits_eq_ok hs.bss_eq).2.length_eq.symm

theorem reorder_spec : (sectionMap s.bss).Perm (List.range s.bss.sections.length) ∧
    referencesInRange s.bss = true ∧ Elf2Rpl.reordered s.bss = s.reordered :=
  reorderSectionIndex_eq_ok_iff.mp hs.reordered_eq

/-- The reordered file holds the sections of the file after P2 in the order
`sectionMap` lists, every index field rewritten. -/
theorem reindexed : Reindexed (sectionMap s.bss) s.bss s.reordered := by
  obtain ⟨hp, hr, he⟩ := hs.reorder_spec
  rw [← he]
  exact reindexed_reordered hp (by have := hs.length_read_lt; rw [hs.length_bss]; omega) hr

theorem length_reordered : s.reordered.sections.length = s.read.sections.length :=
  hs.reindexed.length.trans hs.length_bss

theorem relocated_frame : s.relocated.header = s.reordered.header ∧
    s.relocated.sections.length = s.reordered.sections.length ∧
    ∀ i, KeepsShape (s.reordered.sec i) (s.relocated.sec i) :=
  fixRelocations_frame _ hs.relocated_eq

theorem aligned_shape : s.aligned.header = s.relocated.header ∧
    s.aligned.sections.map sectionShape = s.relocated.sections.map sectionShape := by
  have h := hs.aligned_eq
  simp only [fixSectionAlign, Except.ok.injEq] at h
  rw [← h]
  exact ⟨rfl, ElfFile.map_mapSections _ _ fun _ => by simp [sectionShape]⟩

theorem placed_shape : s.placed.header = s.aligned.header ∧
    s.placed.sections.map sectionShape = s.aligned.sections.map sectionShape := by
  obtain ⟨f', h, hh, hsh⟩ := fixLoaderVirtualAddresses_shape s.aligned
  rw [hs.placed_eq, Except.ok.injEq] at h
  rw [h]
  exact ⟨hh, hsh⟩

theorem length_placed : s.placed.sections.length = s.read.sections.length := by
  have h1 := congrArg List.length hs.placed_shape.2
  have h2 := congrArg List.length hs.aligned_shape.2
  simp only [List.length_map] at h1 h2
  rw [h1, h2, hs.relocated_frame.2.1, hs.length_reordered]

theorem sections_headed : s.headed.sections = s.withCrcs.sections := by
  obtain ⟨h, h9, -⟩ := fixFileHeader_eq s.withCrcs
  rw [hs.headed_eq, Except.ok.injEq] at h9
  rw [h9]

/-- P7 appends the record after the sections of P6, P8 puts the table between them, and
the table holds the CRC of every section of the final list with 0 at its own index. -/
theorem headed_sections : ∃ crcs, s.headed.sections =
      s.placed.sections ++ [crcSection crcs, fileInfoSection (fileInfo s.placed)] ∧
    crcs = (s.headed.sections.map (sectionCrc z)).set s.placed.sections.length 0 := by
  have h7 := hs.withFileInfo_eq
  simp only [generateFileInfoSection, Except.ok.injEq] at h7
  obtain ⟨-, crcs, h8, hc⟩ := (generateCrcSection_eq_ok z).mp hs.withCrcs_eq
  have e9 := hs.sections_headed
  have e7 : s.withFileInfo.sections = s.placed.sections ++ [fileInfoSection (fileInfo s.placed)] :=
    by rw [← h7]
  refine ⟨crcs, ?_, ?_⟩
  · rw [e9, h8, e7]
    simp [insertBeforeLast]
  · rw [hc, e9, e7]
    simp

theorem length_headed : s.headed.sections.length = s.read.sections.length + 2 := by
  obtain ⟨crcs, hsec, -⟩ := hs.headed_sections
  simp [hsec, hs.length_placed]

/-- `fixFileHeader` reads its section list from the file after P8. -/
theorem headed_header : s.headed.header.shoff = 64 ∧
    s.headed.header.shnum = UInt16.ofNat s.headed.sections.length ∧
    s.headed.header.shstrndx = u16OfInt (getSectionIndex s.withCrcs (ascii ".shstrtab")) := by
  obtain ⟨h, h9, h1, h2, h3, -⟩ := fixFileHeader_eq s.withCrcs
  rw [hs.headed_eq, Except.ok.injEq] at h9
  rw [h9]
  exact ⟨h1, h2, h3⟩

/-- The sections after P6 have the names of the reordered file. -/
theorem names_placed :
    s.placed.sections.map Section.name = s.reordered.sections.map Section.name := by
  have h1 := congrArg (List.map Prod.fst) hs.placed_shape.2
  have h2 := congrArg (List.map Prod.fst) hs.aligned_shape.2
  simp only [List.map_map, Function.comp_def, sectionShape] at h1 h2
  rw [h1, h2]
  exact map_eq_of_sec _ hs.relocated_frame.2.1 fun i => (hs.relocated_frame.2.2 i).1

end Stages.Follows

/-- A file with the null section, four bytes of `.text` and the name table. -/
def textFile : ElfFile :=
  ⟨{ magic := HeaderMagic, fileClass := 1, encoding := 2, elfVersion := 1, abi := 0, type := 2,
      machine := 20, version := 1, entry := 0, phoff := 0, shoff := 64, flags := 0, ehsize := 52,
      phentsize := 0, phnum := 0, shentsize := 40, shnum := 3, shstrndx := 2 },
    [default,
     ⟨⟨1, SHT_PROGBITS, 6, 0x02000000, 184, 4, 0, 0, 0, 0⟩, ascii ".text", [0x60, 0, 0, 0]⟩,
     ⟨⟨7, SHT_STRTAB, 0, 0, 188, 17, 0, 0, 0, 0⟩, ascii ".shstrtab",
        0 :: ascii ".text" ++ 0 :: ascii ".shstrtab" ++ [0]⟩]⟩

theorem textFile_readable : Readable textFile where
  check := rfl
  shnum := rfl
  shstrndx := by decide
  names := by
    intro s hs
    simp only [textFile, List.mem_cons, List.mem_singleton, List.not_mem_nil, or_false] at hs
    rcases hs with rfl | rfl | rfl <;> rfl
  payload := by decide
  apart := (apart_rplWrites_iff _).mpr (by decide)

/-- A stand-in for zlib whose CRC of a buffer is its length and whose stream is the
buffer itself. -/
def sampleZlib : Zlib := ⟨fun d => UInt32.ofNat d.length, some⟩

/-- The stages of the run on the bytes `writeRpl` writes for `textFile`. -/
def textStages : Stages := stagesFrom sampleZlib textFile

theorem textStages_follows : textStages.Follows sampleZlib (writeRpl textFile) :=
  follows_stagesFrom (readElf_writeRpl textFile_readable) rfl rfl rfl

end Elf2Rpl
