import Elf2Rpl.Pipeline.Layout

/-! # What the passes keep of a payload

Between `readElf` and `fixFileHeader` three passes touch a payload: P2 empties the first
`.bss` once it has checked that it holds only zeros, P3 and P6 rewrite the records of the
symbol tables, and P4 and P6 those of the `RELA` tables. Every other section arrives at
the index `sectionMap` gives it with its name, its type, its declared size and its payload
byte for byte (`SameContent`, `passes_keep_payloads`).
-/

namespace Elf2Rpl

open elf

/-- What the passes from P3 to P9 keep of a section: its name and type, and, unless it is a
symbol table or a relocation table, its declared size and its payload. -/
def SameContent (s s' : Section) : Prop :=
  s'.name = s.name ∧ s'.header.type = s.header.type ∧
    (s.header.type ≠ SHT_SYMTAB → s.header.type ≠ SHT_RELA →
      s'.header.size = s.header.size ∧ s'.data = s.data)

/-- The part of a section `SameContent` compares, as one value. -/
def contentView (s : Section) : List UInt8 × UInt32 × Option (UInt32 × List UInt8) :=
  (s.name, s.header.type, if s.header.type = SHT_SYMTAB ∨ s.header.type = SHT_RELA then none
    else some (s.header.size, s.data))

namespace SameContent

variable {s s' s'' : Section}

theorem refl (s : Section) : SameContent s s := ⟨rfl, rfl, fun _ _ => ⟨rfl, rfl⟩⟩

theorem trans (h : SameContent s s') (h' : SameContent s' s'') : SameContent s s'' := by
  refine ⟨h'.1.trans h.1, h'.2.1.trans h.2.1, fun hs hr => ?_⟩
  obtain ⟨hz, hd⟩ := h.2.2 hs hr
  obtain ⟨hz', hd'⟩ := h'.2.2 (h.2.1 ▸ hs) (h.2.1 ▸ hr)
  exact ⟨hz'.trans hz, hd'.trans hd⟩

/-- P3 rewrites only a symbol table's records. -/
theorem of_reindexed {σ : List Nat} (h : SectionReindexed σ s s') : SameContent s s' := by
  have hz := congrArg SectionHeader.size h.fields
  have hd := h.data
  exact ⟨h.name, h.type_eq, fun hs _ => ⟨hz, by rwa [if_neg hs] at hd⟩⟩

/-- P4 rewrites only a `RELA` section. -/
theorem of_keepsShape (h : KeepsShape s s') : SameContent s s' :=
  ⟨h.1, h.2.1, fun _ hr => by rw [h.2.2 hr]; exact ⟨rfl, rfl⟩⟩

theorem of_contentView (h : contentView s' = contentView s) : SameContent s s' := by
  simp only [contentView, Prod.mk.injEq] at h
  obtain ⟨hn, ht, hv⟩ := h
  refine ⟨hn, ht, fun hs hr => ?_⟩
  rw [ht, if_neg (not_or.mpr ⟨hs, hr⟩), if_neg (not_or.mpr ⟨hs, hr⟩)] at hv
  simpa using hv

end SameContent

/-- P5 changes only `addralign`. -/
theorem contentView_sectionAlign (s : Section) :
    contentView { s with header := sectionAlign s.header } = contentView s := by
  have hz := congrArg SectionHeader.size (sectionAlign_eq s.header)
  simp only [contentView, sectionAlign_type]
  rw [show (sectionAlign s.header).size = s.header.size from hz]

/-- One placement of P6 moves symbol values and relocation offsets, an address and a flag. -/
theorem contentView_placeSection (a : Bool) (st : ElfFile × UInt32) (i : Nat) :
    (placeSection a st i).1.sections.map contentView = st.1.sections.map contentView :=
  proj_placeSection contentView
    (fun mv s => by
      unfold relocateSymbols
      split_ifs with h
      · rfl
      · simp only [not_not] at h
        simp [contentView, h])
    (fun mv s => by
      unfold relocateRelas
      split_ifs with h
      · rfl
      · simp only [not_not] at h
        simp [contentView, h])
    (fun _ _ => rfl) (fun _ => rfl) a st i

namespace Stages.Follows

variable {z : Zlib} {file : List UInt8} {s : Stages} (hs : s.Follows z file)
include hs

/-- A view of a section that P5 and every placement of P6 keep is the same after P6 as
after P4. -/
theorem proj_placed {β : Type} (p : Section → β)
    (halign : ∀ s, p { s with header := sectionAlign s.header } = p s)
    (hplace : ∀ a st i, (placeSection a st i).1.sections.map p = st.1.sections.map p) :
    s.placed.sections.map p = s.relocated.sections.map p := by
  have h5 := hs.aligned_eq
  have h6 := hs.placed_eq
  simp only [fixSectionAlign, Except.ok.injEq] at h5
  rw [fixLoaderVirtualAddresses_eq_placeAll, Except.ok.injEq] at h6
  rw [← h6, proj_placeAll p hplace, ← h5]
  exact ElfFile.map_mapSections p _ halign

/-- P7 and P8 append their sections after the others, and P9 touches none. -/
theorem sec_headed {j : Nat} (hj : j < s.read.sections.length) :
    s.headed.sec j = s.placed.sec j := by
  obtain ⟨crcs, hsec, -⟩ := hs.headed_sections
  show s.headed.sections.getD j default = _
  rw [hsec, List.getD_append _ _ _ _ (by rw [hs.length_placed]; exact hj)]
  rfl

/-- Section `j` after P9 is section `σ[j]` after P2, with the same content. -/
theorem content_headed {j : Nat} (hj : j < s.read.sections.length) :
    ∃ i, (sectionMap s.bss)[j]? = some i ∧ SameContent (s.bss.sec i) (s.headed.sec j) := by
  have hjr : j < s.reordered.sections.length := by rw [hs.length_reordered]; exact hj
  obtain ⟨i, hσ, hi, hr⟩ := hs.reindexed.sections j hjr
  refine ⟨i, hσ, ?_⟩
  rw [hs.sec_headed hj, ElfFile.sec_eq_getElem _ hi]
  have h3 := SameContent.of_reindexed hr
  rw [← ElfFile.sec_eq_getElem _ hjr] at h3
  exact (h3.trans (SameContent.of_keepsShape (hs.relocated_frame.2.2 j))).trans
    (SameContent.of_contentView (ElfFile.sec_proj_eq _
      (hs.proj_placed contentView contentView_sectionAlign contentView_placeSection) j))

end Stages.Follows

/-- From the file `readElf` returns to the file `fixFileHeader` returns, section `j` is
input section `σ[j]` with its name and type, and, unless it is a symbol table or a `RELA`
table, with its declared size and its payload byte for byte; the one exception is the first
`.bss`, which P2 empties into `SHT_NOBITS` only after finding nothing but zeros in it. -/
theorem passes_keep_payloads {z : Zlib} {file : List UInt8} {s : Stages}
    (hs : s.Follows z file) {j : Nat} (hj : j < s.read.sections.length) :
    ∃ i, (sectionMap s.bss)[j]? = some i ∧
      (SameContent (s.read.sec i) (s.headed.sec j) ∨
        getSectionByName s.read (ascii ".bss") = some i ∧ (∀ b ∈ (s.read.sec i).data, b = 0) ∧
          SameContent (clearBss (s.read.sec i)) (s.headed.sec j)) := by
  obtain ⟨i, hσ, hc⟩ := hs.content_headed hj
  refine ⟨i, hσ, ?_⟩
  rcases fixBssNoBits_sec hs.bss_eq i with h | ⟨hb, hz, h⟩
  · rw [h] at hc
    exact .inl hc
  · rw [h] at hc
    exact .inr ⟨hb, hz, hc⟩

theorem passes_keep_payloads_textFile :
    textStages.Follows sampleZlib (writeRpl textFile) ∧ 1 < textStages.read.sections.length ∧
      ∃ i, (sectionMap textStages.bss)[1]? = some i ∧
        (SameContent (textStages.read.sec i) (textStages.headed.sec 1) ∨
          getSectionByName textStages.read (ascii ".bss") = some i ∧
            (∀ b ∈ (textStages.read.sec i).data, b = 0) ∧
            SameContent (clearBss (textStages.read.sec i)) (textStages.headed.sec 1)) :=
  ⟨textStages_follows, by decide, passes_keep_payloads textStages_follows (by decide)⟩

end Elf2Rpl
