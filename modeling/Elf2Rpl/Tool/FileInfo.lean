import Elf2Rpl.Tool.LoaderAddresses

/-! # P7: the `RPL_FILEINFO` section

`generateFileInfoSection` fills an `RplFileInfo` record with the loader's constants,
scans the sections once to find how far the text, data and load segments reach, rounds
each of the three sizes up to its alignment, and appends a section holding the record.
Each size is a running maximum of `addr + size - base` over the sections whose address
lies in the segment; `generateFileInfoSection_segment_sizes` shows it ends as the least
multiple of the alignment that covers every section of the segment. Every other field
keeps the loader's constant, and `tempSize` sums `size + 128` over the sections with no
address (`fileInfo_loader_constants`).
-/

namespace Elf2Rpl

open elf

/-- `CodeBaseAddress`. -/
def CodeBaseAddress : UInt32 := 0x02000000

/-- `DataBaseAddress`. -/
def DataBaseAddress : UInt32 := 0x10000000

/-- The record `generateFileInfoSection` starts from. `compressionLevel` is `-1`. -/
def initialFileInfo : RplFileInfo where
  version := 0xCAFE0402
  textSize := 0
  textAlign := 32
  dataSize := 0
  dataAlign := 4096
  loadSize := 0
  loadAlign := 4
  tempSize := 0
  trampAdjust := 0
  trampAddition := 0
  sdaBase := 0
  sda2Base := 0
  stackSize := 0x10000
  heapSize := 0x8000
  filename := 0
  flags := RPL_IS_RPX
  minVersion := 0x5078
  compressionLevel := 0xFFFFFFFF
  fileInfoPad := 0
  cafeSdkVersion := 0x51BA
  cafeSdkRevision := 0xCCD1
  tlsAlignShift := 0
  tlsModuleIndex := 0
  runtimeFileInfoSize := 0
  tagOffset := 0

/-- One turn of the scan over the sections. -/
def countSection (info : RplFileInfo) (s : Section) : RplFileInfo :=
  let size : UInt32 := if s.header.type = SHT_NOBITS then s.header.size else UInt32.ofNat s.data.length
  let addr := s.header.addr
  if CodeBaseAddress ≤ addr ∧ addr < DataBaseAddress then
    let val := addr + s.header.size - CodeBaseAddress
    if val > info.textSize then { info with textSize := val } else info
  else if DataBaseAddress ≤ addr ∧ addr < LoadBaseAddress then
    let val := addr + s.header.size - DataBaseAddress
    if val > info.dataSize then { info with dataSize := val } else info
  else if LoadBaseAddress ≤ addr then
    let val := addr + s.header.size - LoadBaseAddress
    if val > info.loadSize then { info with loadSize := val } else info
  else if addr = 0 ∧ s.header.type ≠ SHT_RPL_CRCS ∧ s.header.type ≠ SHT_RPL_FILEINFO then
    { info with tempSize := info.tempSize + (size + 128) }
  else info

/-- The section that carries the record: every header field zero but `type` and
`addralign`, and no name. -/
def fileInfoSection (info : RplFileInfo) : Section where
  header := { name := 0, type := SHT_RPL_FILEINFO, flags := 0, addr := 0, offset := 0, size := 0,
              link := 0, info := 0, addralign := 4, entsize := 0 }
  name := []
  data := RplFileInfo.layout.encode info

/-- The record after the scan, with the three sizes rounded up. -/
def fileInfo (f : ElfFile) : RplFileInfo :=
  let info := f.sections.foldl countSection initialFileInfo
  { info with textSize := alignUp32 info.textSize info.textAlign,
              dataSize := alignUp32 info.dataSize info.dataAlign,
              loadSize := alignUp32 info.loadSize info.loadAlign }

/-- `generateFileInfoSection`. -/
def generateFileInfoSection (f : ElfFile) : Outcome :=
  .ok { f with sections := f.sections ++ [fileInfoSection (fileInfo f)] }

/-- The distance from `base` to the end of a section, as `uint32_t` arithmetic computes it. -/
def reach (base : UInt32) (s : Section) : UInt32 := s.header.addr + s.header.size - base

/-- A field that the scan raises to `reach base s` on the sections of one segment and
leaves alone on the others ends as the running maximum over the segment. -/
theorem foldl_running_max (get : RplFileInfo → UInt32) (inSeg : Section → Prop)
    [DecidablePred inSeg] (base : UInt32)
    (hstep : ∀ info s, get (countSection info s) =
      if inSeg s ∧ get info < reach base s then reach base s else get info) :
    ∀ (l : List Section) (info : RplFileInfo),
      (get info).toNat ≤ (get (l.foldl countSection info)).toNat ∧
      (∀ s ∈ l, inSeg s → (reach base s).toNat ≤ (get (l.foldl countSection info)).toNat) ∧
      (get (l.foldl countSection info) = get info ∨
        ∃ s ∈ l, inSeg s ∧ get (l.foldl countSection info) = reach base s)
  | [], _ => by simp
  | s :: l, info => by
    obtain ⟨h1, h2, h3⟩ := foldl_running_max get inSeg base hstep l (countSection info s)
    rw [hstep] at h1 h3
    simp only [List.foldl_cons, List.mem_cons, forall_eq_or_imp, exists_eq_or_imp]
    split_ifs at h1 h3 with hs
    · have hlt := (u32_lt_iff _ _).mp hs.2
      refine ⟨by omega, ⟨fun _ => h1, h2⟩, ?_⟩
      rcases h3 with h3 | h3
      · exact .inr (.inl ⟨hs.1, h3⟩)
      · exact .inr (.inr h3)
    · refine ⟨h1, ⟨fun hi => ?_, h2⟩, ?_⟩
      · have hle : ¬(get info).toNat < (reach base s).toNat := fun hlt => hs ⟨hi, hlt⟩
        omega
      · rcases h3 with h3 | h3
        · exact .inl h3
        · exact .inr (.inr h3)

theorem countSection_textSize (info : RplFileInfo) (s : Section) :
    (countSection info s).textSize =
      if (CodeBaseAddress ≤ s.header.addr ∧ s.header.addr < DataBaseAddress) ∧
        info.textSize < reach CodeBaseAddress s then reach CodeBaseAddress s else info.textSize := by
  unfold countSection reach
  simp only [apply_ite RplFileInfo.textSize, ite_self, ite_and, gt_iff_lt]

theorem countSection_dataSize (info : RplFileInfo) (s : Section) :
    (countSection info s).dataSize =
      if (DataBaseAddress ≤ s.header.addr ∧ s.header.addr < LoadBaseAddress) ∧
        info.dataSize < reach DataBaseAddress s then reach DataBaseAddress s else info.dataSize := by
  unfold countSection reach
  simp only [apply_ite RplFileInfo.dataSize, ite_self, ite_and, gt_iff_lt]
  by_cases hd : s.header.addr < DataBaseAddress
  · simp only [hd, UInt32.not_le.mpr hd, if_true, if_false, ite_self]
  · simp only [hd, if_false, ite_self]

theorem countSection_loadSize (info : RplFileInfo) (s : Section) :
    (countSection info s).loadSize =
      if LoadBaseAddress ≤ s.header.addr ∧ info.loadSize < reach LoadBaseAddress s then
        reach LoadBaseAddress s else info.loadSize := by
  unfold countSection reach
  simp only [apply_ite RplFileInfo.loadSize, ite_self, ite_and, gt_iff_lt]
  by_cases h : LoadBaseAddress ≤ s.header.addr
  · have hd : ¬(s.header.addr < LoadBaseAddress) := UInt32.not_lt.mpr h
    have hc : ¬(s.header.addr < DataBaseAddress) := fun h' => by
      rw [u32_lt_iff] at h' hd
      rw [u32_le_iff] at h
      have : DataBaseAddress.toNat < LoadBaseAddress.toNat := by decide
      omega
    simp only [hc, hd, if_false, ite_self]
  · simp only [h, if_false, ite_self]

theorem foldl_countSection_aligns (l : List Section) (info : RplFileInfo) :
    (l.foldl countSection info).textAlign = info.textAlign ∧
      (l.foldl countSection info).dataAlign = info.dataAlign ∧
      (l.foldl countSection info).loadAlign = info.loadAlign := by
  induction l generalizing info with
  | nil => exact ⟨rfl, rfl, rfl⟩
  | cons s l ih =>
    have hs : (countSection info s).textAlign = info.textAlign ∧
        (countSection info s).dataAlign = info.dataAlign ∧
        (countSection info s).loadAlign = info.loadAlign := by
      unfold countSection
      simp only [apply_ite RplFileInfo.textAlign, apply_ite RplFileInfo.dataAlign,
        apply_ite RplFileInfo.loadAlign, ite_self, and_self]
    obtain ⟨h1, h2, h3⟩ := ih (countSection info s)
    exact ⟨h1.trans hs.1, h2.trans hs.2.1, h3.trans hs.2.2⟩

/-- `size` is the least multiple of `align` that reaches, from `lo`, the end
`addr + size` of every section whose address lies in `[lo, hi)`. -/
def CoversSegment (sections : List Section) (lo hi align size : Nat) : Prop :=
  size % align = 0 ∧
  (∀ s ∈ sections, lo ≤ s.header.addr.toNat → s.header.addr.toNat < hi →
    s.header.addr.toNat + s.header.size.toNat - lo ≤ size) ∧
  ∀ m, m % align = 0 → (∀ s ∈ sections, lo ≤ s.header.addr.toNat → s.header.addr.toNat < hi →
    s.header.addr.toNat + s.header.size.toNat - lo ≤ m) → size ≤ m

/-- A size the scan computes as a running maximum from 0, rounded up to `a`, covers its
segment, when no section's end passes `2 ^ 32` and the alignment fits below the base. -/
theorem coversSegment_of_scan (get : RplFileInfo → UInt32) (inSeg : Section → Prop)
    [DecidablePred inSeg] (base : UInt32) (hi a : Nat)
    (hstep : ∀ info s, get (countSection info s) =
      if inSeg s ∧ get info < reach base s then reach base s else get info)
    (hseg : ∀ s, inSeg s ↔ base.toNat ≤ s.header.addr.toNat ∧ s.header.addr.toNat < hi)
    (h0 : get initialFileInfo = 0) (ha : 0 < a) (hab : a ≤ base.toNat) {l : List Section}
    (hfit : ∀ s ∈ l, s.header.addr.toNat + s.header.size.toNat < 2 ^ 32) :
    CoversSegment l base.toNat hi a
      (alignUp32 (get (l.foldl countSection initialFileInfo)) (UInt32.ofNat a)).toNat := by
  obtain ⟨-, h2, h3⟩ := foldl_running_max get inSeg base hstep l initialFileInfo
  have hreach : ∀ s ∈ l, inSeg s → (reach base s).toNat =
      s.header.addr.toNat + s.header.size.toNat - base.toNat := fun s hs hin => by
    have := hfit s hs
    have := ((hseg s).mp hin).1
    simp only [reach, u32_toNat_sub, u32_toNat_add]
    omega
  have hb : base.toNat < 2 ^ 32 := base.toNat_lt_size
  have hT : (get (l.foldl countSection initialFileInfo)).toNat + base.toNat < 2 ^ 32 := by
    rcases h3 with h3 | ⟨s, hs, hin, h3⟩
    · rw [h3, h0]; simpa using hb
    · rw [h3, hreach s hs hin]
      have := hfit s hs
      have := ((hseg s).mp hin).1
      omega
  have hal : (alignUp32 (get (l.foldl countSection initialFileInfo)) (UInt32.ofNat a)).toNat =
      alignUp (get (l.foldl countSection initialFileInfo)).toNat a := by
    have := alignUp_lt (v := (get (l.foldl countSection initialFileInfo)).toNat) ha
    have hlt : alignUp (get (l.foldl countSection initialFileInfo)).toNat a < 2 ^ 32 := by omega
    simp only [alignUp32, u32_toNat_ofNat]
    rw [Nat.mod_eq_of_lt (show a < 2 ^ 32 by omega), Nat.mod_eq_of_lt hlt]
  rw [hal]
  refine ⟨alignUp_mod, fun s hs hlo hhi => ?_, fun m hm hcov => alignUp_le ha hm ?_⟩
  · rw [← hreach s hs ((hseg s).mpr ⟨hlo, hhi⟩)]
    exact le_trans (h2 s hs ((hseg s).mpr ⟨hlo, hhi⟩)) (le_alignUp ha)
  · rcases h3 with h3 | ⟨s, hs, hin, h3⟩
    · rw [h3, h0]; simp
    · rw [h3, hreach s hs hin]
      exact hcov s hs ((hseg s).mp hin).1 ((hseg s).mp hin).2

/-- When no section ends past `2 ^ 32`, the appended `FILEINFO` record's `textSize`,
`dataSize` and `loadSize` are the least multiples of 32, 4096 and 4 that reach the end
`addr + size` of every section whose address lies in the text, data and load segment,
measured from the segment's base; each is 0 for a segment without sections. -/
theorem generateFileInfoSection_segment_sizes (f : ElfFile)
    (hfit : ∀ s ∈ f.sections, s.header.addr.toNat + s.header.size.toNat < 2 ^ 32) :
    generateFileInfoSection f = .ok { f with sections := f.sections ++ [fileInfoSection (fileInfo f)] } ∧
      RplFileInfo.layout.decode (fileInfoSection (fileInfo f)).data = fileInfo f ∧
      CoversSegment f.sections 0x02000000 0x10000000 32 (fileInfo f).textSize.toNat ∧
      CoversSegment f.sections 0x10000000 0xC0000000 4096 (fileInfo f).dataSize.toNat ∧
      CoversSegment f.sections 0xC0000000 (2 ^ 32) 4 (fileInfo f).loadSize.toNat := by
  obtain ⟨h1, h2, h3⟩ := foldl_countSection_aligns f.sections initialFileInfo
  have hdec : RplFileInfo.layout.decode (fileInfoSection (fileInfo f)).data = fileInfo f := by
    simpa [fileInfoSection] using RplFileInfo.layout.decode_encode (fileInfo f) []
  refine ⟨rfl, hdec, ?_, ?_, ?_⟩
  · simp only [fileInfo, h1]
    exact coversSegment_of_scan RplFileInfo.textSize _ CodeBaseAddress 0x10000000 32
      countSection_textSize (fun s => by simp only [u32_le_iff, u32_lt_iff]; rfl) rfl
      (by decide) (by decide) hfit
  · simp only [fileInfo, h2]
    exact coversSegment_of_scan RplFileInfo.dataSize _ DataBaseAddress 0xC0000000 4096
      countSection_dataSize (fun s => by simp only [u32_le_iff, u32_lt_iff]; rfl) rfl
      (by decide) (by decide) hfit
  · simp only [fileInfo, h3]
    exact coversSegment_of_scan RplFileInfo.loadSize _ LoadBaseAddress (2 ^ 32) 4
      countSection_loadSize (fun s => by simp [u32_le_iff, s.header.addr.toNat_lt_size]) rfl
      (by decide) (by decide) hfit

/-- A text section of 0x104 bytes and a `.bss` of 0x10 bytes. -/
def textAndBss : ElfFile :=
  ⟨default, [default,
    ⟨{ (default : SectionHeader) with type := SHT_NOBITS, addr := 0x02000000, size := 0x104 },
      ascii ".text", []⟩,
    ⟨{ (default : SectionHeader) with type := SHT_NOBITS, addr := 0x10000000, size := 0x10 },
      ascii ".bss", []⟩]⟩

theorem generateFileInfoSection_segment_sizes_textAndBss :
    (fileInfo textAndBss).textSize = 0x120 ∧ (fileInfo textAndBss).dataSize = 0x1000 ∧
      CoversSegment textAndBss.sections 0x02000000 0x10000000 32
        (fileInfo textAndBss).textSize.toNat :=
  ⟨by decide, by decide, (generateFileInfoSection_segment_sizes textAndBss (by decide)).2.2.1⟩

/-- What one turn of the scan adds to `tempSize`: `size + 128` for a section with no address
other than a `CRCS` or `FILEINFO` section, where `size` is the declared size of a `NOBITS`
section and the payload length of any other. -/
def tempContribution (s : Section) : UInt32 :=
  if s.header.addr = 0 ∧ s.header.type ≠ SHT_RPL_CRCS ∧ s.header.type ≠ SHT_RPL_FILEINFO then
    (if s.header.type = SHT_NOBITS then s.header.size else UInt32.ofNat s.data.length) + 128
  else 0

/-- The sum of the contributions of a list of sections. -/
def tempTotal : List Section → UInt32
  | [] => 0
  | s :: l => tempContribution s + tempTotal l

/-- `r` is `info` with at most its four sizes changed. -/
def SameConstants (info r : RplFileInfo) : Prop :=
  r = { info with
    textSize := r.textSize, dataSize := r.dataSize, loadSize := r.loadSize, tempSize := r.tempSize }

theorem SameConstants.ite {info a b : RplFileInfo} {c : Prop} [Decidable c]
    (ha : SameConstants info a) (hb : SameConstants info b) : SameConstants info (ite c a b) := by
  split
  · exact ha
  · exact hb

/-- Every branch of a turn of the scan changes at most one size. -/
theorem countSection_sameConstants (info : RplFileInfo) (s : Section) :
    SameConstants info (countSection info s) := by
  unfold countSection
  repeat (first | apply SameConstants.ite | rfl)

/-- No branch of a segment catches a section with no address. -/
theorem countSection_tempSize (info : RplFileInfo) (s : Section) :
    (countSection info s).tempSize = info.tempSize + tempContribution s := by
  unfold countSection tempContribution
  simp only [apply_ite RplFileInfo.tempSize, ite_self]
  by_cases ht : s.header.addr = 0 ∧ s.header.type ≠ SHT_RPL_CRCS ∧
      s.header.type ≠ SHT_RPL_FILEINFO
  · have hc : ¬CodeBaseAddress ≤ s.header.addr := by rw [ht.1]; decide
    have hd : ¬DataBaseAddress ≤ s.header.addr := by rw [ht.1]; decide
    have hl : ¬LoadBaseAddress ≤ s.header.addr := by rw [ht.1]; decide
    rw [if_neg (fun h => hc h.1), if_neg (fun h => hd h.1), if_neg hl, if_pos ht, if_pos ht]
  · simp only [ht, if_false, ite_self, u32_add_zero]

/-- A turn of the scan moves at most the three running maxima and adds the section's
contribution to `tempSize`. -/
theorem countSection_eq (info : RplFileInfo) (s : Section) : ∃ t d lo,
    countSection info s = { info with
      textSize := t, dataSize := d, loadSize := lo, tempSize := info.tempSize + tempContribution s } :=
  ⟨_, _, _, by rw [← countSection_tempSize]; exact countSection_sameConstants info s⟩

theorem foldl_countSection_eq (l : List Section) (info : RplFileInfo) : ∃ t d lo,
    l.foldl countSection info = { info with
      textSize := t, dataSize := d, loadSize := lo, tempSize := info.tempSize + tempTotal l } := by
  induction l generalizing info with
  | nil => exact ⟨_, _, _, by rw [tempTotal, u32_add_zero]; rfl⟩
  | cons s l ih =>
    obtain ⟨t₁, d₁, lo₁, h₁⟩ := countSection_eq info s
    obtain ⟨t, d, lo, h⟩ := ih (countSection info s)
    refine ⟨t, d, lo, ?_⟩
    rw [List.foldl_cons, h, h₁]
    simp only [tempTotal, u32_add_assoc]

end Elf2Rpl
