import Elf2Rpl.Pipeline.Run

/-! # The layout of the written file

`calculateSectionOffsets` visits only the CRC table, the file-info record and the
sections of seven types; a payload anywhere else would keep its offset from the input
and be written over whatever lies there. `LayoutReady` names the shape in which every
payload is visited: `m` `Settled` sections, then the table, then the record. From a
`NULL` first section with no size the file after P9 has that shape (P2 empties every
`NOBITS` section, P3 keeps only bucketed sections after index 0, P4 to P6 keep types and
payload sizes), and P10 keeps it. On a ready file the pass gives every payload its own
length and a place past the section-header table, in the traversal order and without
overlap, so no two writes of `writeRpl` share a byte.
-/

namespace Elf2Rpl

open elf

/-- A section the layout pass can handle wherever it sits before the two new sections:
not a CRC table or a file-info record, and with a payload only if one of the six loops
of `calculateSectionOffsets` visits its type. -/
def Settled (s : Section) : Prop :=
  s.header.type ≠ SHT_RPL_CRCS ∧ s.header.type ≠ SHT_RPL_FILEINFO ∧
    (s.data ≠ [] → s.header.type ∈ laidOutTypes)

section Settled

variable {s s' : Section}

/-- Whether a section is settled depends on its type and on whether it has a payload. -/
theorem Settled.of_type (h : Settled s) (ht : s'.header.type = s.header.type)
    (hd : s'.data = [] ↔ s.data = []) : Settled s' :=
  ⟨ht ▸ h.1, ht ▸ h.2.1, fun hne => ht ▸ h.2.2 (hd.not.mp hne)⟩

theorem Settled.of_shape (h : Settled s) (hs : sectionShape s' = sectionShape s) : Settled s' := by
  simp only [sectionShape, Prod.mk.injEq] at hs
  exact h.of_type hs.2.1 (by rw [← List.length_eq_zero, hs.2.2, List.length_eq_zero])

/-- P4 may rewrite a `RELA` payload, and `RELA` is laid out. -/
theorem Settled.of_keepsShape (h : Settled s) (hk : KeepsShape s s') : Settled s' := by
  obtain ⟨-, ht, hu⟩ := hk
  by_cases hr : s.header.type = SHT_RELA
  · refine ⟨?_, ?_, fun _ => ?_⟩ <;> rw [ht, hr] <;> decide
  · exact hu hr ▸ h

theorem Settled.of_reindexed {σ : List Nat} (h : Settled s) (hr : SectionReindexed σ s s') :
    Settled s' :=
  h.of_type hr.type_eq (by rw [← List.length_eq_zero, hr.length_data, List.length_eq_zero])

theorem settled_default : Settled default := ⟨by decide, by decide, fun h => absurd rfl h⟩

/-- A section of a bucket type is settled once a `NOBITS` one has no payload: the other
seven bucket types are the laid-out ones. -/
theorem settled_of_bucketType (ht : s.header.type ∈ bucketTypes)
    (hnb : s.header.type = SHT_NOBITS → s.data = []) : Settled s := by
  simp only [bucketTypes, List.mem_cons, List.mem_singleton, List.not_mem_nil, or_false] at ht
  refine ⟨?_, ?_, fun hd => ?_⟩ <;>
    rcases ht with h | h | h | h | h | h | h | h <;> rw [h] <;>
    first | decide | exact absurd (hnb h) hd

end Settled

/-- Files related section by section are related at every index, past the end too when
the relation holds of the default section. -/
theorem sec_of_forall₂ {R : Section → Section → Prop} {f g : ElfFile}
    (h : List.Forall₂ R f.sections g.sections) (hd : R default default) (i : Nat) :
    R (f.sec i) (g.sec i) := by
  obtain ⟨hl, hR⟩ := List.forall₂_iff_get.mp h
  by_cases hi : i < f.sections.length
  · rw [ElfFile.sec_eq_getElem f hi, ElfFile.sec_eq_getElem g (hl ▸ hi)]
    exact hR i hi (hl ▸ hi)
  · rw [ElfFile.sec_of_le f (by omega), ElfFile.sec_of_le g (by omega)]
    exact hd

/-- `deflateSection_eq_ok` at every index of the file. -/
theorem deflateSections_sec {z : Zlib} {g g' : ElfFile} (h : deflateSections z g = .ok g')
    (i : Nat) : (g'.sec i).name = (g.sec i).name ∧ (g'.sec i).header.type = (g.sec i).header.type ∧
      ((g'.sec i).data = [] ↔ (g.sec i).data = []) ∧ (keepsPayload (g.sec i) → g'.sec i = g.sec i) :=
  sec_of_forall₂ (R := fun s s' => s'.name = s.name ∧ s'.header.type = s.header.type ∧
      (s'.data = [] ↔ s.data = []) ∧ (keepsPayload s → s' = s))
    ((deflateSections_eq_ok h).2.imp fun _ _ => deflateSection_eq_ok) ⟨rfl, rfl, Iff.rfl, fun _ => rfl⟩ i

/-- `m` settled sections, then the CRC table, then the file-info record. -/
structure LayoutReady (g : ElfFile) (m : Nat) : Prop where
  length : g.sections.length = m + 2
  settled : ∀ j < m, Settled (g.sec j)
  crcs : (g.sec m).header.type = SHT_RPL_CRCS
  fileInfo : (g.sec (m + 1)).header.type = SHT_RPL_FILEINFO

namespace LayoutReady

variable {g g' : ElfFile} {m : Nat}

theorem of_type (h : LayoutReady g m) (hl : g'.sections.length = g.sections.length)
    (ht : ∀ i, (g'.sec i).header.type = (g.sec i).header.type)
    (hd : ∀ i, (g'.sec i).data = [] ↔ (g.sec i).data = []) : LayoutReady g' m :=
  ⟨hl.trans h.length, fun j hj => (h.settled j hj).of_type (ht j) (hd j),
    (ht m).trans h.crcs, (ht _).trans h.fileInfo⟩

theorem crcs_index (h : LayoutReady g m) : getSectionByType g SHT_RPL_CRCS = some m :=
  getSectionByType_eq_some_iff.mpr
    ⟨by rw [h.length]; omega, h.crcs, fun j hj => (h.settled j hj).1⟩

theorem fileInfo_index (h : LayoutReady g m) :
    getSectionByType g SHT_RPL_FILEINFO = some (m + 1) := by
  refine getSectionByType_eq_some_iff.mpr ⟨by rw [h.length]; omega, h.fileInfo, fun j hj => ?_⟩
  rcases Nat.lt_succ_iff_lt_or_eq.mp hj with hj | rfl
  · exact (h.settled j hj).2.1
  · rw [h.crcs]
    decide

/-- Every payload of a ready file is visited by the layout pass. -/
theorem mem_traversal (h : LayoutReady g m) {i : Nat} (hi : (g.sec i).data ≠ []) :
    i ∈ traversal g := by
  rw [Elf2Rpl.mem_traversal]
  rcases lt_trichotomy i m with hlt | rfl | hgt
  · exact .inr (.inr ⟨by rw [h.length]; omega, (h.settled i hlt).2.2 hi⟩)
  · exact .inl h.crcs_index
  · by_cases he : i = m + 1
    · exact .inr (.inl (he ▸ h.fileInfo_index))
    · exact absurd (by rw [ElfFile.sec_of_le g (by rw [h.length]; omega)]; rfl) hi

/-- P10 keeps the shape: it keeps every type and whether each payload is empty. -/
theorem deflateSections {z : Zlib} (h : LayoutReady g m) (hz : deflateSections z g = .ok g') :
    LayoutReady g' m := by
  exact h.of_type (deflateSections_eq_ok hz).2.length_eq.symm
    (fun i => (deflateSections_sec hz i).2.1) (fun i => (deflateSections_sec hz i).2.2.1)

end LayoutReady

section Laid

variable {g g' : ElfFile} (h : calculateSectionOffsets g = .ok g')
  (hfit : (payloadStart g).toNat + payloadSpan g (traversal g) < 2 ^ 32)

include h

theorem laidOut_data (i : Nat) : (g'.sec i).data = (g.sec i).data :=
  congrArg (·.2.2) ((calculateSectionOffsets_frame h).2.2 i)

include hfit

/-- A visited payload gets its own length as size, an offset past the payload start,
and an offset below that of every payload visited after it. -/
theorem laidOut_ascending {k k' : Nat} (hk : k < (traversal g).length)
    (hk' : k' < (traversal g).length) (hkk : k < k') (hne : (g'.sec (traversal g)[k]).data ≠ []) :
    (g'.sec (traversal g)[k]).header.offset.toNat < (g'.sec (traversal g)[k']).header.offset.toNat := by
  obtain ⟨-, hs, hle⟩ := offset_add_size_le h hfit hk
  have := List.length_pos.mpr (show (g.sec _).data ≠ [] by rwa [← laidOut_data h])
  have := hle k' hk' hkk
  omega

variable {m : Nat} (hr : LayoutReady g m)
include hr

theorem laidOut_size {i : Nat} (hi : (g'.sec i).data ≠ []) :
    (g'.sec i).header.size.toNat = (g'.sec i).data.length ∧
      (payloadStart g).toNat ≤ (g'.sec i).header.offset.toNat := by
  rw [laidOut_data h] at hi ⊢
  obtain ⟨k, hk, rfl⟩ := List.getElem_of_mem (hr.mem_traversal hi)
  obtain ⟨ho, hs, -⟩ := offset_add_size_le h hfit hk
  exact ⟨hs, ho ▸ Nat.le_add_right _ _⟩

theorem laidOut_apart {i j : Nat} (hij : i ≠ j) (hi : (g'.sec i).data ≠ [])
    (hj : (g'.sec j).data ≠ []) :
    RangesApart ((g'.sec i).header.offset.toNat, (g'.sec i).header.size.toNat)
      ((g'.sec j).header.offset.toNat, (g'.sec j).header.size.toNat) := by
  rw [laidOut_data h] at hi hj
  obtain ⟨k, hk, rfl⟩ := List.getElem_of_mem (hr.mem_traversal hi)
  obtain ⟨k', hk', rfl⟩ := List.getElem_of_mem (hr.mem_traversal hj)
  rcases lt_trichotomy k k' with hlt | rfl | hgt
  · exact .inl ((offset_add_size_le h hfit hk).2.2 k' hk' hlt)
  · exact absurd rfl hij
  · exact .inr ((offset_add_size_le h hfit hk').2.2 k hk hgt)

/-- With the section-header table at offset 64, the file header, the table and the
payloads are written to disjoint byte ranges. -/
theorem laidOut_writes_apart (hsh : g.header.shoff = 64)
    (hn : 64 + alignUp (40 * g.sections.length) 64 < 2 ^ 32) : (rplWrites g').Pairwise Apart := by
  obtain ⟨hh, hl, -⟩ := calculateSectionOffsets_frame h
  have hstart := toNat_payloadStart g (by rw [hsh]; exact hn)
  have hal := le_alignUp (v := 40 * g.sections.length) (a := 64) (by decide)
  have h64 : (64 : UInt32).toNat = 64 := rfl
  have hpos : ∀ k (hk : k < g'.sections.length), g'.sections[k].data.length ≠ 0 →
      (g'.sec k).data ≠ [] := fun k hk h => by
    rw [ElfFile.sec_eq_getElem g' hk]
    exact List.ne_nil_of_length_pos (Nat.pos_of_ne_zero h)
  have hpay : ∀ s ∈ g'.sections, s.data.length ≠ 0 →
      64 + 40 * g'.sections.length ≤ s.header.offset.toNat := fun s hs hne => by
    obtain ⟨i, hi, rfl⟩ := List.getElem_of_mem hs
    have := (laidOut_size h hfit hr (hpos i hi hne)).2
    rw [ElfFile.sec_eq_getElem g' hi, hstart, hsh] at this
    rw [hl]
    exact le_trans (by omega) this
  rw [apart_rplWrites_iff, rplRanges, hh, hsh]
  simp only [List.pairwise_cons, List.mem_cons, List.mem_map, List.mem_filter, forall_eq_or_imp,
    forall_exists_index, and_imp, List.pairwise_map, List.pairwise_filter]
  refine ⟨⟨.inl (by simp only [h64]; omega), fun r s hs hne hr => ?_⟩, fun r s hs hne hr => ?_, ?_⟩
  · have := hpay s hs (of_decide_eq_true hne)
    exact .inl (by rw [← hr]; omega)
  · have := hpay s hs (of_decide_eq_true hne)
    exact .inl (by rw [← hr, h64]; omega)
  · refine List.pairwise_iff_getElem.mpr fun i j hi hj hij hni hnj => ?_
    have hapart := laidOut_apart h hfit hr (Nat.ne_of_lt hij) (hpos i hi hni) (hpos j hj hnj)
    rwa [(laidOut_size h hfit hr (hpos i hi hni)).1, (laidOut_size h hfit hr (hpos j hj hnj)).1,
      ElfFile.sec_eq_getElem g' hi, ElfFile.sec_eq_getElem g' hj] at hapart

end Laid

namespace Stages.Follows

variable {z : Zlib} {file : List UInt8} {s : Stages} (hs : s.Follows z file)
include hs

theorem data_read_eq_nil {i : Nat}
    (hi : (s.read.sec i).header.size = 0 ∨ (s.read.sec i).header.type = SHT_NOBITS) :
    (s.read.sec i).data = [] := by
  by_cases hl : i < s.read.sections.length
  · rw [ElfFile.sec_eq_getElem _ hl] at hi ⊢
    exact readElf_data_eq_nil hs.read_eq (List.getElem_mem hl) hi
  · rw [ElfFile.sec_of_le _ (by omega)]
    rfl

theorem bss_sec (i : Nat) :
    s.bss.sec i = s.read.sec i ∨ s.bss.sec i = clearBss (s.read.sec i) :=
  sec_of_forall₂ (fixBssNoBits_eq_ok hs.bss_eq).2 (.inl rfl) i

section Settled

variable (hnull : (s.read.sec 0).header.type = SHT_NULL)
  (hsize : (s.read.sec 0).header.size = 0)
include hnull hsize

/-- After P2 section 0 has no payload and every other section is bucketed or past the
end, and a `NOBITS` section has no payload. -/
theorem settled_bss (i : Nat) : Settled (s.bss.sec i) := by
  rcases Nat.eq_zero_or_pos i with rfl | hpos
  · have h0 : (s.bss.sec 0).data = [] ∧ ((s.bss.sec 0).header.type = SHT_NULL ∨
        (s.bss.sec 0).header.type = SHT_NOBITS) := by
      rcases hs.bss_sec 0 with h | h <;> rw [h]
      · exact ⟨hs.data_read_eq_nil (.inl hsize), .inl hnull⟩
      · exact ⟨rfl, .inr rfl⟩
    obtain ⟨hd, ht⟩ := h0
    refine ⟨?_, ?_, fun h => absurd hd h⟩ <;> rcases ht with h | h <;> rw [h] <;> decide
  · by_cases hl : i < s.bss.sections.length
    · refine settled_of_bucketType
        (bucketed_iff_type.mp (((sectionMap_perm_iff _).mp hs.reorder_spec.1).2.2 i hpos hl)) ?_
      rcases hs.bss_sec i with h | h <;> rw [h]
      · exact fun ht => hs.data_read_eq_nil (.inr ht)
      · exact fun _ => rfl
    · rw [ElfFile.sec_of_le _ (by omega)]
      exact settled_default

theorem settled_reordered (j : Nat) : Settled (s.reordered.sec j) := by
  by_cases hj : j < s.reordered.sections.length
  · obtain ⟨i, -, hi, hr⟩ := hs.reindexed.sections j hj
    have h := hs.settled_bss hnull hsize i
    rw [ElfFile.sec_eq_getElem _ hi] at h
    rw [ElfFile.sec_eq_getElem _ hj]
    exact h.of_reindexed hr
  · rw [ElfFile.sec_of_le _ (by omega)]
    exact settled_default

theorem settled_placed (j : Nat) : Settled (s.placed.sec j) :=
  (((hs.settled_reordered hnull hsize j).of_keepsShape (hs.relocated_frame.2.2 j)).of_shape
    (ElfFile.sec_proj_eq _ hs.aligned_shape.2 j)).of_shape
    (ElfFile.sec_proj_eq _ hs.placed_shape.2 j)

theorem layoutReady_headed : LayoutReady s.headed s.placed.sections.length := by
  obtain ⟨crcs, hsec, -⟩ := hs.headed_sections
  have hget : ∀ i, s.headed.sec i =
      (s.placed.sections ++ [crcSection crcs, fileInfoSection (fileInfo s.placed)]).getD i default :=
    fun i => by rw [← hsec]; rfl
  refine ⟨by simp [hsec], fun j hj => ?_, ?_, ?_⟩
  · rw [hget, List.getD_append _ _ _ _ hj]
    exact hs.settled_placed hnull hsize j
  · rw [hget, List.getD_append_right _ _ _ _ le_rfl, Nat.sub_self]
    rfl
  · rw [hget, List.getD_append_right _ _ _ _ (Nat.le_succ _), Nat.succ_sub le_rfl, Nat.sub_self]
    rfl

end Settled

end Stages.Follows

/-- Where the layout pass on `g` put the payloads of its result `g'`: every payload has
its length as size and lies past the section-header table, two payloads never overlap,
the offsets grow along the traversal, and the writes of `writeRpl` are disjoint. -/
structure PayloadLayout (g g' : ElfFile) : Prop where
  size_offset : ∀ i, (g'.sec i).data ≠ [] →
    (g'.sec i).header.size.toNat = (g'.sec i).data.length ∧
      g'.header.shoff.toNat + alignUp (40 * g'.sections.length) 64 ≤
        (g'.sec i).header.offset.toNat
  apart : ∀ i j, i ≠ j → (g'.sec i).data ≠ [] → (g'.sec j).data ≠ [] →
    RangesApart ((g'.sec i).header.offset.toNat, (g'.sec i).header.size.toNat)
      ((g'.sec j).header.offset.toNat, (g'.sec j).header.size.toNat)
  ascending : ∀ k k' (hk : k < (traversal g).length) (hk' : k' < (traversal g).length), k < k' →
    (g'.sec (traversal g)[k]).data ≠ [] →
      (g'.sec (traversal g)[k]).header.offset.toNat < (g'.sec (traversal g)[k']).header.offset.toNat
  writes_apart : (rplWrites g').Pairwise Apart

/-- A run from a `NULL` first section with no size whose output stays below 4 GiB lays
the payloads out without overlap, in the traversal order, past the header table. -/
theorem payloads_laid_out {z : Zlib} {file : List UInt8} {s : Stages} {f₁₀ f₁₁ : ElfFile}
    (hs : s.Follows z file) (hnull : (s.read.sec 0).header.type = SHT_NULL)
    (hsize : (s.read.sec 0).header.size = 0) (h10 : deflateSections z s.headed = .ok f₁₀)
    (h11 : calculateSectionOffsets f₁₀ = .ok f₁₁)
    (hfit : 64 + alignUp (40 * f₁₀.sections.length) 64 +
      payloadSpan f₁₀ (List.range f₁₀.sections.length) < 2 ^ 32) :
    PayloadLayout f₁₀ f₁₁ := by
  have hr := (hs.layoutReady_headed hnull hsize).deflateSections h10
  have hsh : f₁₀.header.shoff = 64 := by
    rw [(deflateSections_eq_ok h10).1]
    exact hs.headed_header.1
  obtain ⟨hh, hl, -⟩ := calculateSectionOffsets_frame h11
  have h64 : (64 : UInt32).toNat = 64 := rfl
  have hstart := toNat_payloadStart f₁₀ (by rw [hsh, h64]; omega)
  have hspan := payloadSpan_le_range f₁₀ (nodup_traversal f₁₀) fun _ => lt_of_mem_traversal
  have hfit' : (payloadStart f₁₀).toNat + payloadSpan f₁₀ (traversal f₁₀) < 2 ^ 32 := by
    rw [hstart, hsh, h64]
    omega
  refine ⟨fun i hi => ?_, fun i j hij hi hj => laidOut_apart h11 hfit' hr hij hi hj,
    fun k k' hk hk' hkk hne => laidOut_ascending h11 hfit' hk hk' hkk hne,
    laidOut_writes_apart h11 hfit' hr hsh (by omega)⟩
  obtain ⟨h1, h2⟩ := laidOut_size h11 hfit' hr hi
  rw [hstart] at h2
  rw [hh, hl]
  exact ⟨h1, h2⟩

/-- The file P10 returns on `textFile`. -/
def textDeflated : ElfFile := resultOf (deflateSections sampleZlib textStages.headed)

/-- The file P11 returns on `textFile`. -/
def textLaidOut : ElfFile := resultOf (calculateSectionOffsets textDeflated)

theorem textDeflated_eq : deflateSections sampleZlib textStages.headed = .ok textDeflated :=
  eq_ok_resultOf rfl

theorem textLaidOut_eq : calculateSectionOffsets textDeflated = .ok textLaidOut :=
  eq_ok_resultOf rfl

theorem payloads_laid_out_textFile :
    textStages.Follows sampleZlib (writeRpl textFile) ∧
      (textStages.read.sec 0).header.type = SHT_NULL ∧ (textStages.read.sec 0).header.size = 0 ∧
      deflateSections sampleZlib textStages.headed = .ok textDeflated ∧
      calculateSectionOffsets textDeflated = .ok textLaidOut ∧
      64 + alignUp (40 * textDeflated.sections.length) 64 +
        payloadSpan textDeflated (List.range textDeflated.sections.length) < 2 ^ 32 ∧
      PayloadLayout textDeflated textLaidOut :=
  have hfit : 64 + alignUp (40 * textDeflated.sections.length) 64 +
      payloadSpan textDeflated (List.range textDeflated.sections.length) < 2 ^ 32 := by decide
  ⟨textStages_follows, rfl, rfl, textDeflated_eq, textLaidOut_eq, hfit,
    payloads_laid_out textStages_follows rfl rfl textDeflated_eq textLaidOut_eq hfit⟩

end Elf2Rpl
