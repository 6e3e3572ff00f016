import Elf2Rpl.Pipeline.Content

/-! # What the passes keep of the references between sections

A section names other sections by index: its `link`, the `info` of a `RELA` table, and the
`shndx` of every symbol of a symbol table. P3 rewrites each of them for the new order
(`Reindexed`). No pass after it touches them: P4 rewrites the records of the `RELA` tables
and clears their flags, P5 changes `addralign`, P6 addresses, flags, symbol values and
relocation offsets, and P7 and P8 append their sections after the others. So in the file
`fixFileHeader` returns, every index field, read through `sectionMap`, still names the
section it named before P3 (`passes_keep_references`). `shstrndx` is not among them: P9
sets it by name.
-/

namespace Elf2Rpl

open elf

/-- The index-valued fields of a section, with its type. -/
def refView (s : Section) : UInt32 × UInt32 × Option UInt32 × Option (List UInt16) :=
  (s.header.type, s.header.link, if s.header.type = SHT_RELA then some s.header.info else none,
    if s.header.type = SHT_SYMTAB then some ((Symbol.layout.records s.data).map Symbol.shndx)
    else none)

/-- A `RELA` table whose header changed at most in its flags has the same references. -/
theorem refView_of_rela {s s' : Section} (ht : s.header.type = SHT_RELA)
    (h : { s'.header with flags := s.header.flags } = s.header) : refView s' = refView s := by
  have hty : s'.header.type = SHT_RELA := (congrArg SectionHeader.type h :).trans ht
  have hl : s'.header.link = s.header.link := (congrArg SectionHeader.link h :)
  have hi : s'.header.info = s.header.info := (congrArg SectionHeader.info h :)
  have hne : SHT_RELA ≠ SHT_SYMTAB := by decide
  simp [refView, ht, hty, hl, hi, hne]

theorem refView_fixRelocationTable (symbols : List UInt8) (st : RelocState) (s : Section)
    (ht : s.header.type = SHT_RELA) : refView (fixRelocationTable symbols st s).1 = refView s :=
  refView_of_rela ht rfl

theorem refView_sectionAlign (s : Section) :
    refView { s with header := sectionAlign s.header } = refView s := by
  have h := sectionAlign_eq s.header
  have hl : (sectionAlign s.header).link = s.header.link := (congrArg SectionHeader.link h :)
  have hi : (sectionAlign s.header).info = s.header.info := (congrArg SectionHeader.info h :)
  simp only [refView, sectionAlign_type, hl, hi]

/-- One placement of P6 moves symbol values but never a symbol's section. -/
theorem refView_placeSection (a : Bool) (st : ElfFile × UInt32) (i : Nat) :
    (placeSection a st i).1.sections.map refView = st.1.sections.map refView :=
  proj_placeSection refView
    (fun mv s => by
      unfold relocateSymbols
      split_ifs with h
      · rfl
      · simp [refView, not_not.mp h, Function.comp_def, apply_ite Symbol.shndx])
    (fun mv s => by
      unfold relocateRelas
      split_ifs with h
      · rfl
      · exact refView_of_rela (not_not.mp h) rfl)
    (fun _ _ => rfl) (fun _ => rfl) a st i

/-- Section `j` has the same references after P9 as after P3. -/
theorem Stages.Follows.refView_headed {z : Zlib} {file : List UInt8} {s : Stages}
    (hs : s.Follows z file) {j : Nat} (hj : j < s.read.sections.length) :
    refView (s.headed.sec j) = refView (s.reordered.sec j) :=
  calc refView (s.headed.sec j)
    _ = refView (s.placed.sec j) := by rw [hs.sec_headed hj]
    _ = refView (s.relocated.sec j) := ElfFile.sec_proj_eq _
        (hs.proj_placed refView refView_sectionAlign refView_placeSection) j
    _ = refView (s.reordered.sec j) :=
        fixRelocations_proj _ _ refView_fixRelocationTable hs.relocated_eq j

/-- In the file `fixFileHeader` returns, section `j` is section `σ[j]` of the file P3
reordered (`σ = sectionMap`), of the same type, and each of its index fields, read through
`σ`, names the section the field named there: its `link`, its `info` if it is a `RELA`
table, and the `shndx` below `SHN_LORESERVE` of each of its symbols if it is a symbol
table. -/
theorem passes_keep_references {z : Zlib} {file : List UInt8} {s : Stages}
    (hs : s.Follows z file) {j : Nat} (hj : j < s.read.sections.length) :
    ∃ i, (sectionMap s.bss)[j]? = some i ∧
      (s.headed.sec j).header.type = (s.bss.sec i).header.type ∧
      (sectionMap s.bss)[(s.headed.sec j).header.link.toNat]? =
        some (s.bss.sec i).header.link.toNat ∧
      ((s.bss.sec i).header.type = SHT_RELA →
        (sectionMap s.bss)[(s.headed.sec j).header.info.toNat]? =
          some (s.bss.sec i).header.info.toNat) ∧
      ((s.bss.sec i).header.type = SHT_SYMTAB →
        List.Forall₂ (fun sym sym' => sym.shndx < SHN_LORESERVE →
            (sectionMap s.bss)[sym'.shndx.toNat]? = some sym.shndx.toNat)
          (Symbol.layout.records (s.bss.sec i).data)
          (Symbol.layout.records (s.headed.sec j).data)) := by
  have hjr : j < s.reordered.sections.length := by rw [hs.length_reordered]; exact hj
  obtain ⟨i, hσ, hi, hr⟩ := hs.reindexed.sections j hjr
  rw [← ElfFile.sec_eq_getElem _ hi, ← ElfFile.sec_eq_getElem _ hjr] at hr
  have hv := hs.refView_headed hj
  simp only [refView, Prod.mk.injEq] at hv
  obtain ⟨hty, hlink, hinfo, hsym⟩ := hv
  rw [hr.type_eq] at hty
  refine ⟨i, hσ, hty, by rw [hlink]; exact hr.link, fun hR => ?_, fun hS => ?_⟩
  · have hri := hr.info
    rw [if_pos hR] at hri
    rw [hty, hr.type_eq, if_pos hR, if_pos hR, Option.some.injEq] at hinfo
    rw [hinfo]
    exact hri
  · have hrd := hr.data
    rw [if_pos hS] at hrd
    rw [hty, hr.type_eq, if_pos hS, if_pos hS, Option.some.injEq] at hsym
    have h : List.Forall₂ (fun sym x => sym.shndx < SHN_LORESERVE →
          (sectionMap s.bss)[x.toNat]? = some sym.shndx.toNat)
        (Symbol.layout.records (s.bss.sec i).data)
        ((Symbol.layout.records (s.reordered.sec j).data).map Symbol.shndx) :=
      List.forall₂_map_right_iff.mpr (hrd.1.imp fun _ _ h => h.shndx)
    rw [← hsym] at h
    exact List.forall₂_map_right_iff.mp h

theorem passes_keep_references_textFile :
    textStages.Follows sampleZlib (writeRpl textFile) ∧ 1 < textStages.read.sections.length ∧
      ∃ i, (sectionMap textStages.bss)[1]? = some i ∧
        (textStages.headed.sec 1).header.type = (textStages.bss.sec i).header.type ∧
        (sectionMap textStages.bss)[(textStages.headed.sec 1).header.link.toNat]? =
          some (textStages.bss.sec i).header.link.toNat ∧
        ((textStages.bss.sec i).header.type = SHT_RELA →
          (sectionMap textStages.bss)[(textStages.headed.sec 1).header.info.toNat]? =
            some (textStages.bss.sec i).header.info.toNat) ∧
        ((textStages.bss.sec i).header.type = SHT_SYMTAB →
          List.Forall₂ (fun sym sym' => sym.shndx < SHN_LORESERVE →
              (sectionMap textStages.bss)[sym'.shndx.toNat]? = some sym.shndx.toNat)
            (Symbol.layout.records (textStages.bss.sec i).data)
            (Symbol.layout.records (textStages.headed.sec 1).data)) :=
  ⟨textStages_follows, by decide, passes_keep_references textStages_follows (by decide)⟩

end Elf2Rpl
