import Elf2Rpl.Tool.Deflate
import Elf2Rpl.Tool.Reorder

/-! # P9 and P11: the header and the file offsets

`fixFileHeader` rewrites the file header into RPL form; it puts the section header
table at `shoff = align_up(52, 64)` and recomputes `shnum` and `shstrndx` from the
section list, both cast to `uint16_t`.

`calculateSectionOffsets` walks the sections with a `uint32_t` cursor that starts past
the section header table: first the first `RPL_CRCS` and the first `RPL_FILEINFO`
section, then six loops over the whole list, each picking one kind of section. Every
section it visits gets the cursor as its offset and its payload length as its size.
`calculateSectionOffsets_eq` shows that the pass is one run of that step along
`traversal`, a list without repeats, so each offset is the start plus the payload
lengths visited before (`foldl_assignOffset`); without wrap-around the payloads lie one
after another (`offset_add_size_le`).
-/

namespace Elf2Rpl

open elf

/-- `static_cast<uint16_t>` of an `int`. -/
def u16OfInt (x : Int) : UInt16 := UInt16.ofNat (x % 65536).toNat

/-- `fixFileHeader`. The seven padding bytes it clears are written as zeros by
`Header.encode`. -/
def fixFileHeader (f : ElfFile) : Outcome :=
  .ok { f with header := { f.header with
    magic := HeaderMagic
    fileClass := 1
    encoding := ELFDATA2MSB
    elfVersion := EV_CURRENT
    abi := EABI_CAFE
    type := 0xFE01
    machine := EM_PPC
    version := 1
    flags := 0
    phoff := 0
    phentsize := 0
    phnum := 0
    shoff := alignUp32 52 64
    shnum := UInt16.ofNat f.sections.length
    shentsize := 40
    ehsize := 52
    shstrndx := u16OfInt (getSectionIndex f (ascii ".shstrtab")) } }

theorem u16OfInt_of_nonneg {x : Int} (h0 : 0 ≤ x) (h : x < 65536) :
    (u16OfInt x).toNat = x.toNat := by
  simp only [u16OfInt, u16_toNat_ofNat, Int.emod_eq_of_lt h0 h]
  omega

theorem u16OfInt_neg_one : u16OfInt (-1) = 0xFFFF := rfl

/-- On the values `getSectionIndex` returns for fewer than 65535 sections, the cast is
injective and gives `0xFFFF` only for `-1`. -/
theorem u16OfInt_eq_iff {x : Int} {y : UInt16} (hx : -1 ≤ x) (hx' : x < 65535)
    (hy : y.toNat < 65535) : u16OfInt x = y ↔ x = y.toNat := by
  rcases (show x = -1 ∨ 0 ≤ x by omega) with rfl | h0
  · rw [u16OfInt_neg_one]
    constructor
    · rintro rfl
      exact absurd hy (by decide)
    · intro h
      omega
  · have hu := u16OfInt_of_nonneg h0 (by omega)
    constructor
    · rintro rfl
      omega
    · intro h
      exact UInt16.toNat.inj (by omega)

/-- `fixFileHeader` keeps the sections, puts the section header table at 64, and
writes the section count and the index of the first `.shstrtab` as `uint16_t`. -/
theorem fixFileHeader_eq (f : ElfFile) : ∃ h, fixFileHeader f = .ok ⟨h, f.sections⟩ ∧
    h.shoff = 64 ∧ h.shnum = UInt16.ofNat f.sections.length ∧
    h.shstrndx = u16OfInt (getSectionIndex f (ascii ".shstrtab")) ∧ h.magic = HeaderMagic ∧
    h.fileClass = ELFCLASS32 ∧ h.encoding = ELFDATA2MSB ∧ h.machine = EM_PPC ∧
    h.elfVersion = EV_CURRENT :=
  ⟨_, rfl, rfl, rfl, rfl, rfl, rfl, rfl, rfl, rfl⟩

/-- `header.offset = offset; header.size = size`. -/
def setOffset (offset size : UInt32) (s : Section) : Section :=
  { s with header := { s.header with offset, size } }

/-- The body all the steps of `calculateSectionOffsets` share: section `i` gets the
cursor as its offset and its payload length as its size, and the cursor moves past it. -/
def assignOffset (st : ElfFile × UInt32) (i : Nat) : ElfFile × UInt32 :=
  let size := UInt32.ofNat (st.1.sec i).data.length
  (st.1.modifySection i (setOffset st.2 size), st.2 + size)

/-- `if (auto section = getSectionByType(file, type))`, then the step. -/
def assignFirst (type : UInt32) (st : ElfFile × UInt32) : ElfFile × UInt32 :=
  match getSectionByType st.1 type with
  | some i => assignOffset st i
  | none => st

/-- A loop over all the sections that takes the step on those `p` picks. -/
def assignWhere (p : SectionHeader → Bool) (st : ElfFile × UInt32) : ElfFile × UInt32 :=
  (List.range st.1.sections.length).foldl
    (fun st i => if p (st.1.sec i).header then assignOffset st i else st) st

/-- Non-executable `PROGBITS`. -/
def isData (h : SectionHeader) : Bool :=
  h.type == SHT_PROGBITS && (h.flags &&& SHF_EXECINSTR) == 0

/-- Where the payloads start: past the section header table, rounded up to 64. -/
def payloadStart (f : ElfFile) : UInt32 :=
  f.header.shoff + alignUp32 (UInt32.ofNat (f.sections.length * 40)) 64

/-- `calculateSectionOffsets`. -/
def calculateSectionOffsets (f : ElfFile) : Outcome :=
  let st := assignFirst SHT_RPL_CRCS (f, payloadStart f)
  let st := assignFirst SHT_RPL_FILEINFO st
  let st := assignWhere isData st
  let st := assignWhere isExports st
  let st := assignWhere isImports st
  let st := assignWhere isSymbolTable st
  let st := assignWhere isCode st
  let st := assignWhere isRelocation st
  .ok st.1

/-- The six loops, in order. -/
def layoutSteps : List (SectionHeader → Bool) :=
  [isData, isExports, isImports, isSymbolTable, isCode, isRelocation]

/-- The sections each step of `calculateSectionOffsets` visits, as a function of the file. -/
def layoutStages : List (ElfFile → List Nat) :=
  [fun f => (getSectionByType f SHT_RPL_CRCS).toList,
    fun f => (getSectionByType f SHT_RPL_FILEINFO).toList] ++
    layoutSteps.map fun p f => indicesWhere f p

/-- The sections `calculateSectionOffsets` visits, in the order it visits them. -/
def traversal (f : ElfFile) : List Nat := layoutStages.flatMap fun L => L f

/-- The payload bytes of the listed sections. -/
def payloadSpan (f : ElfFile) : List Nat → Nat
  | [] => 0
  | i :: l => (f.sec i).data.length + payloadSpan f l

/-- What the step leaves alone: everything but `offset` and `size`. -/
def layoutKey (s : Section) : SectionHeader × List UInt8 × List UInt8 :=
  ({ s.header with offset := 0, size := 0 }, s.name, s.data)

@[simp] theorem layoutKey_setOffset (o z : UInt32) (s : Section) :
    layoutKey (setOffset o z s) = layoutKey s := rfl

@[simp] theorem setOffset_data (o z : UInt32) (s : Section) : (setOffset o z s).data = s.data := rfl

@[simp] theorem setOffset_offset (o z : UInt32) (s : Section) :
    (setOffset o z s).header.offset = o := rfl

@[simp] theorem setOffset_size (o z : UInt32) (s : Section) :
    (setOffset o z s).header.size = z := rfl

theorem setOffset_default : setOffset 0 0 default = default := rfl

/-- The step moves no section and changes nothing but `offset` and `size`. -/
theorem layoutKeys_assignOffset (st : ElfFile × UInt32) (i : Nat) :
    (assignOffset st i).1.sections.map layoutKey = st.1.sections.map layoutKey :=
  ElfFile.map_modifySection layoutKey _ _ fun _ => rfl

@[simp] theorem assignOffset_header (st : ElfFile × UInt32) (i : Nat) :
    (assignOffset st i).1.header = st.1.header := rfl

@[simp] theorem length_assignOffset (st : ElfFile × UInt32) (i : Nat) :
    (assignOffset st i).1.sections.length = st.1.sections.length := by
  simp [assignOffset]

/-- What a loop looks at is a function of the layout key. -/
def ReadsKey (p : Section → β) : Prop := ∀ s t, layoutKey s = layoutKey t → p s = p t

theorem ReadsKey.congr {p : Section → β} (hp : ReadsKey p) {f g : ElfFile}
    (h : f.sections.map layoutKey = g.sections.map layoutKey) :
    f.sections.map p = g.sections.map p := by
  have hl := congrArg List.length h
  simp only [List.length_map] at hl
  refine List.ext_getElem (by simp [hl]) fun k h1 h2 => ?_
  have := congrArg (·[k]?) h
  simp only [List.getElem?_map, List.getElem?_eq_getElem (by simpa using h1),
    List.getElem?_eq_getElem (by simpa [hl] using h1), Option.map_some', Option.some.injEq] at this
  simpa using hp _ _ this

theorem readsKey_header (p : SectionHeader → Bool) (hp : ∀ h, p { h with offset := 0, size := 0 } = p h) :
    ReadsKey fun s => p s.header := fun s t hst => by
  have := congrArg Prod.fst hst
  simp only [layoutKey] at this
  show p s.header = p t.header
  rw [← hp s.header, ← hp t.header, this]

theorem readsKey_type : ReadsKey fun s => s.header.type := fun s t hst => by
  simpa [layoutKey] using congrArg (fun k => k.1.type) hst

theorem readsKey_data : ReadsKey Section.data := fun s t hst => by
  simpa [layoutKey] using congrArg (fun k => k.2.2) hst

theorem indicesWhere_congr {f g : ElfFile} (h : f.sections.map layoutKey = g.sections.map layoutKey)
    {p : SectionHeader → Bool} (hp : ReadsKey fun s => p s.header) :
    indicesWhere f p = indicesWhere g p := by
  have hl := congrArg List.length h
  simp only [List.length_map] at hl
  simp only [indicesWhere, hl]
  congr 1
  funext i
  exact ElfFile.sec_proj_eq _ (hp.congr h) i

theorem getSectionByType_congr {f g : ElfFile}
    (h : f.sections.map layoutKey = g.sections.map layoutKey) (type : UInt32) :
    getSectionByType f type = getSectionByType g type := by
  have hmap : ∀ l : List Section, l.findIdx? (·.header.type == type) =
      (l.map fun s => s.header.type).findIdx? (· == type) :=
    fun l => by rw [List.findIdx?_map]; rfl
  rw [getSectionByType, getSectionByType, hmap, hmap, readsKey_type.congr h]

section Run

variable (f : ElfFile)

theorem layoutKeys_foldl_assignOffset (l : List Nat) (st : ElfFile × UInt32) :
    (l.foldl assignOffset st).1.sections.map layoutKey = st.1.sections.map layoutKey := by
  induction l generalizing st with
  | nil => rfl
  | cons i l ih => rw [List.foldl_cons, ih, layoutKeys_assignOffset]

theorem payloadSpan_congr {f g : ElfFile} (h : f.sections.map layoutKey = g.sections.map layoutKey)
    (l : List Nat) : payloadSpan f l = payloadSpan g l := by
  induction l with
  | nil => rfl
  | cons i l ih => simp only [payloadSpan, ih, ElfFile.sec_proj_eq _ (readsKey_data.congr h)]

theorem payloadSpan_cons (i : Nat) (l : List Nat) :
    payloadSpan f (i :: l) = (f.sec i).data.length + payloadSpan f l := rfl

/-- A run of the step along a list without repeats: the cursor ends past all the
payloads, the listed sections get the cursor at their turn and their length, and the
others are untouched. -/
theorem foldl_assignOffset {l : List Nat} (hnd : l.Nodup) (hl : ∀ i ∈ l, i < f.sections.length)
    (c : UInt32) :
    (l.foldl assignOffset (f, c)).2 = c + UInt32.ofNat (payloadSpan f l) ∧
      (l.foldl assignOffset (f, c)).1.header = f.header ∧
      (∀ j, j ∉ l → (l.foldl assignOffset (f, c)).1.sec j = f.sec j) ∧
      ∀ k (hk : k < l.length), (l.foldl assignOffset (f, c)).1.sec l[k] =
        setOffset (c + UInt32.ofNat (payloadSpan f (l.take k)))
          (UInt32.ofNat (f.sec l[k]).data.length) (f.sec l[k]) := by
  induction l generalizing f c with
  | nil =>
    exact ⟨by simp [payloadSpan], rfl, fun _ _ => rfl, fun k hk => absurd hk (by simp)⟩
  | cons a l ih =>
    rw [List.nodup_cons] at hnd
    have ha : a < f.sections.length := hl a (List.mem_cons_self _ _)
    set f₁ := (assignOffset (f, c) a).1 with hf₁
    have hsec : ∀ j, f₁.sec j = if a = j then setOffset c (UInt32.ofNat (f.sec a).data.length)
        (f.sec j) else f.sec j := fun j => by
      rw [hf₁, assignOffset, ElfFile.sec_modifySection _ ha]
    have hkey := layoutKeys_assignOffset (f, c) a
    have hspan := payloadSpan_congr hkey
    obtain ⟨h1, h2, h3, h4⟩ := ih f₁ hnd.2
      (fun i hi => by simpa [hf₁] using hl i (List.mem_cons_of_mem _ hi))
      (c + UInt32.ofNat (f.sec a).data.length)
    have hne : ∀ j ∈ l, f₁.sec j = f.sec j := fun j hj => by
      rw [hsec, if_neg (fun h => hnd.1 (by rw [h]; exact hj))]
    rw [List.foldl_cons, show assignOffset (f, c) a = (f₁, _) from rfl]
    refine ⟨?_, h2, fun j hj => ?_, fun k hk => ?_⟩
    · rw [h1, hspan, payloadSpan_cons, u32_ofNat_add, u32_add_assoc]
    · rw [List.mem_cons, not_or] at hj
      rw [h3 j hj.2, hsec, if_neg (Ne.symm hj.1)]
    · cases k with
      | zero =>
        simp only [List.getElem_cons_zero, List.take_zero]
        rw [h3 a hnd.1, hsec, if_pos rfl]
        simp [payloadSpan]
      | succ k =>
        have hk' : k < l.length := by simpa using hk
        simp only [List.getElem_cons_succ, List.take_succ_cons]
        rw [h4 k hk', hne _ (List.getElem_mem hk'), hspan, payloadSpan_cons, u32_ofNat_add,
          u32_add_assoc]

theorem payloadSpan_append (l₁ l₂ : List Nat) :
    payloadSpan f (l₁ ++ l₂) = payloadSpan f l₁ + payloadSpan f l₂ := by
  induction l₁ with
  | nil => simp [payloadSpan]
  | cons i l ih => rw [List.cons_append, payloadSpan_cons, payloadSpan_cons, ih, Nat.add_assoc]

theorem payloadSpan_take_succ {l : List Nat} {k : Nat} (hk : k < l.length) :
    payloadSpan f (l.take (k + 1)) = payloadSpan f (l.take k) + (f.sec l[k]).data.length := by
  rw [List.take_succ, List.getElem?_eq_getElem hk, payloadSpan_append]
  simp [payloadSpan]

theorem payloadSpan_take_le_total (l : List Nat) (k : Nat) :
    payloadSpan f (l.take k) ≤ payloadSpan f l := by
  have := payloadSpan_append f (l.take k) (l.drop k)
  rw [List.take_append_drop] at this
  omega

theorem payloadSpan_take_le (l : List Nat) {k k' : Nat} (h : k ≤ k') :
    payloadSpan f (l.take k) ≤ payloadSpan f (l.take k') := by
  have := payloadSpan_append f ((l.take k').take k) ((l.take k').drop k)
  rw [List.take_append_drop, List.take_take, Nat.min_eq_left h] at this
  omega

/-- Sections listed at most once, all of the first `n`, hold at most the payloads of the
first `n`. -/
theorem payloadSpan_le_range {l : List Nat} (hnd : l.Nodup) {n : Nat} (hl : ∀ i ∈ l, i < n) :
    payloadSpan f l ≤ payloadSpan f (List.range n) := by
  induction n generalizing l with
  | zero => cases l with
    | nil => exact Nat.le_refl _
    | cons i _ => exact absurd (hl i (List.mem_cons_self _ _)) (Nat.not_lt_zero _)
  | succ n ih =>
    rw [List.range_succ, payloadSpan_append]
    by_cases hn : n ∈ l
    · obtain ⟨A, B, rfl⟩ := List.append_of_mem hn
      have hnd' : (A ++ B).Nodup := (List.nodup_middle.mp hnd).of_cons
      have hAB : ∀ i ∈ A ++ B, i < n := fun i hi => by
        have hne : i ≠ n := fun h => by
          subst h
          exact (List.nodup_middle.mp hnd |> List.nodup_cons.mp).1 hi
        have := hl i (List.mem_append.mpr ((List.mem_append.mp hi).imp_right (List.mem_cons_of_mem n)))
        omega
      have := ih hnd' hAB
      simp only [payloadSpan_append, payloadSpan_cons, payloadSpan] at this ⊢
      omega
    · have := ih hnd fun i hi => by
        have := hl i hi
        have : i ≠ n := fun h => hn (h ▸ hi)
        omega
      omega

end Run

/-- A loop of the pass is the step along the sections it picks in the file it starts
from: the step changes nothing the loop looks at. -/
theorem foldl_ite_assignOffset {p : SectionHeader → Bool} (hp : ReadsKey fun s => p s.header)
    (l : List Nat) (st : ElfFile × UInt32) :
    l.foldl (fun st i => if p (st.1.sec i).header then assignOffset st i else st) st =
      (l.filter fun i => p (st.1.sec i).header).foldl assignOffset st := by
  induction l generalizing st with
  | nil => rfl
  | cons i l ih =>
    have hq : (fun j => p ((assignOffset st i).1.sec j).header) = fun j => p (st.1.sec j).header :=
      funext (ElfFile.sec_proj_eq _ (hp.congr (layoutKeys_assignOffset st i)))
    by_cases hi : p (st.1.sec i).header
    · rw [List.foldl_cons, if_pos hi, ih, hq]
      simp only [List.filter_cons, hi, if_true, List.foldl_cons]
    · rw [List.foldl_cons, if_neg hi, ih]
      simp only [List.filter_cons, hi, Bool.false_eq_true, if_false]

theorem assignWhere_eq {p : SectionHeader → Bool} (hp : ReadsKey fun s => p s.header)
    (st : ElfFile × UInt32) : assignWhere p st = (indicesWhere st.1 p).foldl assignOffset st :=
  foldl_ite_assignOffset hp _ st

theorem assignFirst_eq (type : UInt32) (st : ElfFile × UInt32) :
    assignFirst type st = (getSectionByType st.1 type).toList.foldl assignOffset st := by
  unfold assignFirst
  split <;> simp [*]

theorem readsKey_layoutSteps : ∀ p ∈ layoutSteps, ReadsKey fun s => p s.header := by
  simp only [layoutSteps, List.mem_cons, List.mem_singleton, List.not_mem_nil, or_false]
  rintro p (rfl | rfl | rfl | rfl | rfl | rfl) <;> exact readsKey_header _ fun _ => rfl

/-- Every stage lists the same sections in files that agree on the layout keys. -/
theorem layoutStages_congr : ∀ L ∈ layoutStages, ∀ {f g : ElfFile},
    f.sections.map layoutKey = g.sections.map layoutKey → L f = L g := by
  intro L hL f g h
  simp only [layoutStages, List.mem_append, List.mem_cons, List.mem_singleton, List.not_mem_nil,
    or_false, List.mem_map] at hL
  rcases hL with (rfl | rfl) | ⟨p, hp, rfl⟩
  · simp only [getSectionByType_congr h]
  · simp only [getSectionByType_congr h]
  · exact indicesWhere_congr h (readsKey_layoutSteps p hp)

/-- Stages that each run the step along the sections they pick run it along all their
lists joined. -/
theorem foldl_stages {stages : List (ElfFile → List Nat)}
    (hs : ∀ L ∈ stages, ∀ {f g : ElfFile}, f.sections.map layoutKey = g.sections.map layoutKey →
      L f = L g) (st : ElfFile × UInt32) :
    stages.foldl (fun st L => (L st.1).foldl assignOffset st) st =
      (stages.flatMap fun L => L st.1).foldl assignOffset st := by
  induction stages generalizing st with
  | nil => rfl
  | cons L stages ih =>
    rw [List.foldl_cons, ih (fun L' hL' => hs L' (List.mem_cons_of_mem _ hL')), List.flatMap_cons,
      List.foldl_append, List.flatMap_congr fun L' hL' =>
        hs L' (List.mem_cons_of_mem _ hL') (layoutKeys_foldl_assignOffset _ _)]

/-- `calculateSectionOffsets` is the step run along `traversal` from `payloadStart`. -/
theorem calculateSectionOffsets_eq (f : ElfFile) :
    calculateSectionOffsets f = .ok ((traversal f).foldl assignOffset (f, payloadStart f)).1 := by
  have hW := readsKey_layoutSteps
  simp only [layoutSteps, List.mem_cons, List.mem_singleton, List.not_mem_nil, or_false,
    forall_eq_or_imp, forall_eq] at hW
  obtain ⟨h1, h2, h3, h4, h5, h6⟩ := hW
  rw [traversal, ← foldl_stages layoutStages_congr]
  simp only [calculateSectionOffsets, assignFirst_eq, assignWhere_eq h1, assignWhere_eq h2,
    assignWhere_eq h3, assignWhere_eq h4, assignWhere_eq h5, assignWhere_eq h6, layoutStages,
    layoutSteps, List.map_cons, List.map_nil, List.cons_append, List.nil_append, List.foldl_cons,
    List.foldl_nil]

/-- The types the six loops pick. -/
def laidOutTypes : List UInt32 :=
  [SHT_PROGBITS, SHT_RPL_EXPORTS, SHT_RPL_IMPORTS, SHT_SYMTAB, SHT_STRTAB, SHT_REL, SHT_RELA]

theorem layoutSteps_disjoint : layoutSteps.Pairwise fun p q => ∀ h, ¬(p h ∧ q h) := by
  simp only [layoutSteps, List.pairwise_cons, List.mem_cons, List.mem_singleton,
    forall_eq_or_imp, forall_eq, List.not_mem_nil, false_imp_iff, implies_true,
    List.Pairwise.nil, and_true]
  refine ⟨⟨?_, ?_, ?_, ?_, ?_⟩, ⟨?_, ?_, ?_, ?_⟩, ⟨?_, ?_, ?_⟩, ⟨?_, ?_⟩, ?_⟩ <;> intro h <;>
  simp only [isData, isCode, isExports, isRelocation, isImports, isSymbolTable,
    Bool.and_eq_true, Bool.or_eq_true, beq_iff_eq, bne_iff_ne] <;>
  rintro ⟨h1, h2⟩ <;> (try rcases h1 with h1 | h1) <;> (try rcases h2 with h2 | h2) <;>
  simp_all [SHT_PROGBITS, SHT_RPL_EXPORTS, SHT_REL, SHT_RELA, SHT_RPL_IMPORTS, SHT_SYMTAB,
    SHT_STRTAB]

/-- A section one of the six loops picks is one of the laid-out types, and every
section of those types is picked: the two `PROGBITS` loops split on `SHF_EXECINSTR`. -/
theorem exists_layoutStep_iff {h : SectionHeader} :
    (∃ p ∈ layoutSteps, p h = true) ↔ h.type ∈ laidOutTypes := by
  simp only [layoutSteps, laidOutTypes, List.mem_cons, List.mem_singleton, List.not_mem_nil,
    or_false, exists_eq_or_imp, exists_eq_left, isData, isCode, isExports, isRelocation,
    isImports, isSymbolTable, Bool.and_eq_true, Bool.or_eq_true, beq_iff_eq, bne_iff_ne]
  by_cases hx : h.flags &&& SHF_EXECINSTR = 0 <;>
    simp only [hx, and_true, and_false, or_false, false_or, ne_eq, not_true_eq_false,
      not_false_eq_true, or_assoc, or_comm, or_left_comm]

/-- `getSectionByType` finds the first section of the type. -/
theorem getSectionByType_eq_some_iff {f : ElfFile} {type : UInt32} {i : Nat} :
    getSectionByType f type = some i ↔ i < f.sections.length ∧ (f.sec i).header.type = type ∧
      ∀ j < i, (f.sec j).header.type ≠ type := by
  rw [getSectionByType, List.findIdx?_eq_some_iff_getElem]
  constructor
  · rintro ⟨hi, hty, hlt⟩
    refine ⟨hi, by simpa [ElfFile.sec_eq_getElem f hi] using hty, fun j hj => ?_⟩
    simpa [ElfFile.sec_eq_getElem f (Nat.lt_trans hj hi)] using hlt j hj
  · rintro ⟨hi, hty, hlt⟩
    refine ⟨hi, by simpa [ElfFile.sec_eq_getElem f hi] using hty, fun j hj => ?_⟩
    simpa [ElfFile.sec_eq_getElem f (Nat.lt_trans hj hi)] using hlt j hj

theorem getSectionByType_eq_some {f : ElfFile} {type : UInt32} {i : Nat}
    (h : getSectionByType f type = some i) :
    i < f.sections.length ∧ (f.sec i).header.type = type :=
  let ⟨hi, hty, _⟩ := getSectionByType_eq_some_iff.mp h
  ⟨hi, hty⟩

theorem traversal_eq (f : ElfFile) : traversal f = (getSectionByType f SHT_RPL_CRCS).toList ++
    (getSectionByType f SHT_RPL_FILEINFO).toList ++ layoutSteps.flatMap (indicesWhere f) := by
  simp [traversal, layoutStages, layoutSteps]

theorem mem_traversal {f : ElfFile} {i : Nat} : i ∈ traversal f ↔
    getSectionByType f SHT_RPL_CRCS = some i ∨ getSectionByType f SHT_RPL_FILEINFO = some i ∨
      i < f.sections.length ∧ (f.sec i).header.type ∈ laidOutTypes := by
  rw [traversal_eq, ← exists_layoutStep_iff]
  simp only [List.mem_append, Option.mem_toList, Option.mem_def, List.mem_flatMap,
    mem_indicesWhere, or_assoc]
  exact or_congr_right (or_congr_right
    ⟨fun ⟨p, hp, hi, h⟩ => ⟨hi, p, hp, h⟩, fun ⟨hi, p, hp, h⟩ => ⟨p, hp, hi, h⟩⟩)

theorem lt_of_mem_traversal {f : ElfFile} {i : Nat} (h : i ∈ traversal f) :
    i < f.sections.length := by
  rcases mem_traversal.mp h with h | h | h
  · exact (getSectionByType_eq_some h).1
  · exact (getSectionByType_eq_some h).1
  · exact h.1

/-- No section is visited twice. -/
theorem nodup_traversal (f : ElfFile) : (traversal f).Nodup := by
  have hC : (layoutSteps.flatMap (indicesWhere f)).Nodup := by
    refine List.nodup_flatMap.mpr ⟨fun p _ => nodup_indicesWhere f p, ?_⟩
    refine layoutSteps_disjoint.imp fun {p q} hpq i hp hq => ?_
    exact hpq _ ⟨((mem_indicesWhere f).mp hp).2, ((mem_indicesWhere f).mp hq).2⟩
  have hlaid : ∀ i ∈ layoutSteps.flatMap (indicesWhere f), (f.sec i).header.type ∈ laidOutTypes :=
    fun i hi => by
      obtain ⟨p, hp, hi⟩ := List.mem_flatMap.mp hi
      exact exists_layoutStep_iff.mp ⟨p, hp, ((mem_indicesWhere f).mp hi).2⟩
  have hty : ∀ {t i}, getSectionByType f t = some i → t ∉ laidOutTypes →
      i ∉ layoutSteps.flatMap (indicesWhere f) := fun h ht hi =>
    ht ((getSectionByType_eq_some h).2 ▸ hlaid _ hi)
  rw [traversal_eq]
  refine List.nodup_append.mpr ⟨List.nodup_append.mpr ⟨?_, ?_, ?_⟩, hC, ?_⟩
  · cases getSectionByType f SHT_RPL_CRCS <;> simp
  · cases getSectionByType f SHT_RPL_FILEINFO <;> simp
  · intro i h1 h2
    simp only [Option.mem_toList] at h1 h2
    have := (getSectionByType_eq_some h1).2.symm.trans (getSectionByType_eq_some h2).2
    exact absurd this (by decide)
  · intro i h1 h2
    simp only [List.mem_append, Option.mem_toList] at h1
    rcases h1 with h1 | h1 <;> exact hty h1 (by decide) h2

/-- The pass is the step along `traversal`, which has no repeats: the visited sections
get the cursor at their turn and their length, and the others are untouched. -/
theorem calculateSectionOffsets_spec (f : ElfFile) : ∃ f', calculateSectionOffsets f = .ok f' ∧
    f'.header = f.header ∧ f'.sections.length = f.sections.length ∧
    (∀ j, j ∉ traversal f → f'.sec j = f.sec j) ∧
    ∀ k (hk : k < (traversal f).length), f'.sec (traversal f)[k] =
      setOffset (payloadStart f + UInt32.ofNat (payloadSpan f ((traversal f).take k)))
        (UInt32.ofNat (f.sec (traversal f)[k]).data.length) (f.sec (traversal f)[k]) := by
  obtain ⟨-, h2, h3, h4⟩ := foldl_assignOffset f (nodup_traversal f)
    (fun _ => lt_of_mem_traversal) (payloadStart f)
  have hl := congrArg List.length (layoutKeys_foldl_assignOffset (traversal f) (f, payloadStart f))
  simp only [List.length_map] at hl
  exact ⟨_, calculateSectionOffsets_eq f, h2, hl, h3, h4⟩

/-- The pass keeps the header and the number of sections, and changes the offset and the
size of a section and nothing else. -/
theorem calculateSectionOffsets_frame {f f' : ElfFile} (h : calculateSectionOffsets f = .ok f') :
    f'.header = f.header ∧ f'.sections.length = f.sections.length ∧
      ∀ i, layoutKey (f'.sec i) = layoutKey (f.sec i) := by
  obtain ⟨f'', h', hh, hl, hout, hin⟩ := calculateSectionOffsets_spec f
  rw [h, Except.ok.injEq] at h'
  subst h'
  refine ⟨hh, hl, fun i => ?_⟩
  by_cases hi : i ∈ traversal f
  · obtain ⟨k, hk, rfl⟩ := List.getElem_of_mem hi
    rw [hin k hk, layoutKey_setOffset]
  · rw [hout i hi]

/-- Without wrap-around the payloads start at the section-header table rounded past its
end to a multiple of 64 bytes. -/
theorem toNat_payloadStart (f : ElfFile)
    (h : f.header.shoff.toNat + alignUp (40 * f.sections.length) 64 < 2 ^ 32) :
    (payloadStart f).toNat = f.header.shoff.toNat + alignUp (40 * f.sections.length) 64 := by
  have h1 := le_alignUp (v := 40 * f.sections.length) (a := 64) (by decide)
  simp only [payloadStart, alignUp32, u32_toNat_add, u32_toNat_ofNat, Nat.mul_comm _ 40]
  simp (disch := omega) only [Nat.mod_eq_of_lt, show (64 : UInt32).toNat = 64 from rfl]

/-- Without wrap-around of the cursor, the `k`-th visited section starts at the payload
start plus the payloads visited before it, its size is its payload length, and it ends
at or before the start of every section visited after it. -/
theorem offset_add_size_le {f f' : ElfFile} (h : calculateSectionOffsets f = .ok f')
    (hfit : (payloadStart f).toNat + payloadSpan f (traversal f) < 2 ^ 32)
    {k : Nat} (hk : k < (traversal f).length) :
    (f'.sec (traversal f)[k]).header.offset.toNat =
        (payloadStart f).toNat + payloadSpan f ((traversal f).take k) ∧
      (f'.sec (traversal f)[k]).header.size.toNat = (f.sec (traversal f)[k]).data.length ∧
      ∀ k' (hk' : k' < (traversal f).length), k < k' →
        (f'.sec (traversal f)[k]).header.offset.toNat +
          (f'.sec (traversal f)[k]).header.size.toNat ≤
            (f'.sec (traversal f)[k']).header.offset.toNat := by
  obtain ⟨f'', h', -, -, -, hsec⟩ := calculateSectionOffsets_spec f
  rw [h] at h'
  cases h'
  have hsucc := payloadSpan_take_succ f hk
  have hall := payloadSpan_take_le_total f (traversal f) (k + 1)
  have hoff : ∀ k (hk : k < (traversal f).length), (f'.sec (traversal f)[k]).header.offset.toNat =
      (payloadStart f).toNat + payloadSpan f ((traversal f).take k) := fun k hk => by
    have := payloadSpan_take_le_total f (traversal f) k
    rw [hsec k hk, setOffset_offset, u32_toNat_add, u32_toNat_ofNat]
    omega
  have hsize : (f'.sec (traversal f)[k]).header.size.toNat = (f.sec (traversal f)[k]).data.length := by
    rw [hsec k hk, setOffset_size, u32_toNat_ofNat]
    omega
  refine ⟨hoff k hk, hsize, fun k' hk' hkk => ?_⟩
  have hmono := payloadSpan_take_le f (traversal f) (show k + 1 ≤ k' by omega)
  rw [hoff k hk, hoff k' hk', hsize]
  omega

end Elf2Rpl
