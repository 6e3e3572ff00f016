import Elf2Rpl.Format.Layout
import Mathlib.Data.List.GetD

/-! # The in-memory ELF file

`ElfFile` of `elf2rpl/main.cpp`: one file header and an ordered list of
sections, each a section header, the name readElf resolved for it, and its
payload bytes. The on-disk records come from `elf.h`, which src/ does not
contain; their layouts and constants are the ELF32 and PowerPC ones the spec
names, big-endian as the tool's `be_val` fields are. A pass either returns
`true` with the updated file or ends in a `Fault`: it returned `false`, or it
did something C++ leaves undefined.
-/

namespace Elf2Rpl

namespace elf

def SHT_NULL : UInt32 := 0
def SHT_PROGBITS : UInt32 := 1
def SHT_SYMTAB : UInt32 := 2
def SHT_STRTAB : UInt32 := 3
def SHT_RELA : UInt32 := 4
def SHT_NOBITS : UInt32 := 8
def SHT_REL : UInt32 := 9
def SHT_RPL_EXPORTS : UInt32 := 0x80000001
def SHT_RPL_IMPORTS : UInt32 := 0x80000002
def SHT_RPL_CRCS : UInt32 := 0x80000003
def SHT_RPL_FILEINFO : UInt32 := 0x80000004

def SHF_WRITE : UInt32 := 0x1
def SHF_ALLOC : UInt32 := 0x2
def SHF_EXECINSTR : UInt32 := 0x4
def SHF_DEFLATED : UInt32 := 0x08000000

def STT_OBJECT : UInt8 := 1
def STT_FUNC : UInt8 := 2
def STT_SECTION : UInt8 := 3

def SHN_LORESERVE : UInt16 := 0xff00

def HeaderMagic : UInt32 := 0x7F454C46
def ELFCLASS32 : UInt8 := 1
def ELFDATA2MSB : UInt8 := 2
def EV_CURRENT : UInt8 := 1
def EM_PPC : UInt16 := 20
def EABI_CAFE : UInt16 := 0xCAFE
def RPL_IS_RPX : UInt32 := 0x2

def R_PPC_NONE : UInt32 := 0
def R_PPC_ADDR32 : UInt32 := 1
def R_PPC_ADDR24 : UInt32 := 2
def R_PPC_ADDR16_LO : UInt32 := 4
def R_PPC_ADDR16_HI : UInt32 := 5
def R_PPC_ADDR16_HA : UInt32 := 6
def R_PPC_REL24 : UInt32 := 10
def R_PPC_REL14 : UInt32 := 11
def R_PPC_REL32 : UInt32 := 26
def R_PPC_DTPMOD32 : UInt32 := 68
def R_PPC_DTPREL32 : UInt32 := 78
def R_PPC_EMB_SDA21 : UInt32 := 109
def R_PPC_EMB_RELSDA : UInt32 := 116
def R_PPC_DIAB_SDA21_LO : UInt32 := 180
def R_PPC_DIAB_SDA21_HI : UInt32 := 181
def R_PPC_DIAB_SDA21_HA : UInt32 := 182
def R_PPC_DIAB_RELSDA_LO : UInt32 := 183
def R_PPC_DIAB_RELSDA_HI : UInt32 := 184
def R_PPC_DIAB_RELSDA_HA : UInt32 := 185
def R_PPC_GHS_REL16_HI : UInt32 := 252
def R_PPC_GHS_REL16_LO : UInt32 := 253

end elf

open elf

/-- `elf::SectionHeader`, ten big-endian words. -/
structure SectionHeader where
  name : UInt32
  type : UInt32
  flags : UInt32
  addr : UInt32
  offset : UInt32
  size : UInt32
  link : UInt32
  info : UInt32
  addralign : UInt32
  entsize : UInt32
deriving DecidableEq, Repr, Inhabited

/-- `elf::Symbol`. -/
structure Symbol where
  name : UInt32
  value : UInt32
  size : UInt32
  info : UInt8
  other : UInt8
  shndx : UInt16
deriving DecidableEq, Repr, Inhabited

/-- `elf::Rela`; the signed `addend` is kept as its 32-bit two's complement. -/
structure Rela where
  offset : UInt32
  info : UInt32
  addend : UInt32
deriving DecidableEq, Repr, Inhabited

/-- `elf::Header`. The seven padding bytes after `abi` are not kept: nothing reads
them, and `fixFileHeader` clears them before the header is written. -/
structure Header where
  magic : UInt32
  fileClass : UInt8
  encoding : UInt8
  elfVersion : UInt8
  abi : UInt16
  type : UInt16
  machine : UInt16
  version : UInt32
  entry : UInt32
  phoff : UInt32
  shoff : UInt32
  flags : UInt32
  ehsize : UInt16
  phentsize : UInt16
  phnum : UInt16
  shentsize : UInt16
  shnum : UInt16
  shstrndx : UInt16
deriving DecidableEq, Repr, Inhabited

namespace SectionHeader

open Layout in
/-- The 40-byte on-disk section header. -/
def layout : Layout SectionHeader :=
  (u32.prod (u32.prod (u32.prod (u32.prod (u32.prod (u32.prod (u32.prod (u32.prod
    (u32.prod u32))))))))).map
    (fun ⟨a, b, c, d, e, f, g, h, i, j⟩ => ⟨a, b, c, d, e, f, g, h, i, j⟩)
    (fun s => (s.name, s.type, s.flags, s.addr, s.offset, s.size, s.link, s.info,
      s.addralign, s.entsize))
    (fun _ => rfl) (fun _ => rfl)

@[simp] theorem layout_width : layout.width = 40 := rfl

end SectionHeader

namespace Symbol

open Layout in
/-- The 16-byte symbol table entry. -/
def layout : Layout Symbol :=
  (u32.prod (u32.prod (u32.prod (u8.prod (u8.prod u16))))).map
    (fun ⟨a, b, c, d, e, f⟩ => ⟨a, b, c, d, e, f⟩)
    (fun s => (s.name, s.value, s.size, s.info, s.other, s.shndx))
    (fun _ => rfl) (fun _ => rfl)

@[simp] theorem layout_width : layout.width = 16 := rfl

end Symbol

namespace Rela

open Layout in
/-- The 12-byte relocation entry. -/
def layout : Layout Rela :=
  (u32.prod (u32.prod u32)).map (fun ⟨a, b, c⟩ => ⟨a, b, c⟩)
    (fun r => (r.offset, r.info, r.addend)) (fun _ => rfl) (fun _ => rfl)

@[simp] theorem layout_width : layout.width = 12 := rfl

end Rela

namespace Header

open Layout

/-- `e_ident` up to the padding: magic, class, encoding, version and ABI. -/
private def identLayout : Layout (UInt32 × UInt8 × UInt8 × UInt8 × UInt16) :=
  u32.prod (u8.prod (u8.prod (u8.prod u16)))

/-- The fields after `e_ident`. -/
private def restLayout : Layout (UInt16 × UInt16 × UInt32 × UInt32 × UInt32 × UInt32 ×
    UInt32 × UInt16 × UInt16 × UInt16 × UInt16 × UInt16 × UInt16) :=
  u16.prod (u16.prod (u32.prod (u32.prod (u32.prod (u32.prod (u32.prod (u16.prod
    (u16.prod (u16.prod (u16.prod (u16.prod u16)))))))))))

/-- The 52 header bytes, the padding written as zeros. -/
def encode (h : Header) : List UInt8 :=
  identLayout.encode (h.magic, h.fileClass, h.encoding, h.elfVersion, h.abi) ++
    List.replicate 7 0 ++
    restLayout.encode (h.type, h.machine, h.version, h.entry, h.phoff, h.shoff, h.flags,
      h.ehsize, h.phentsize, h.phnum, h.shentsize, h.shnum, h.shstrndx)

/-- The header read from the first 52 bytes of a file. -/
def decode (bs : List UInt8) : Header :=
  let i := identLayout.decode bs
  let r := restLayout.decode (bs.drop 16)
  { magic := i.1, fileClass := i.2.1, encoding := i.2.2.1, elfVersion := i.2.2.2.1,
    abi := i.2.2.2.2, type := r.1, machine := r.2.1, version := r.2.2.1, entry := r.2.2.2.1,
    phoff := r.2.2.2.2.1, shoff := r.2.2.2.2.2.1, flags := r.2.2.2.2.2.2.1,
    ehsize := r.2.2.2.2.2.2.2.1, phentsize := r.2.2.2.2.2.2.2.2.1,
    phnum := r.2.2.2.2.2.2.2.2.2.1, shentsize := r.2.2.2.2.2.2.2.2.2.2.1,
    shnum := r.2.2.2.2.2.2.2.2.2.2.2.1, shstrndx := r.2.2.2.2.2.2.2.2.2.2.2.2 }

@[simp] theorem length_encode (h : Header) : h.encode.length = 52 := by
  simp [encode, identLayout.length_encode, restLayout.length_encode]; rfl

theorem decode_encode (h : Header) (rest : List UInt8) : decode (h.encode ++ rest) = h := by
  have hi : (identLayout.encode (h.magic, h.fileClass, h.encoding, h.elfVersion, h.abi) ++
      List.replicate 7 0).length = 16 := by simp [identLayout.length_encode]; rfl
  have h1 : identLayout.decode (h.encode ++ rest) =
      (h.magic, h.fileClass, h.encoding, h.elfVersion, h.abi) := by
    rw [encode, List.append_assoc, List.append_assoc, identLayout.decode_encode]
  have h2 : restLayout.decode ((h.encode ++ rest).drop 16) = (h.type, h.machine, h.version,
      h.entry, h.phoff, h.shoff, h.flags, h.ehsize, h.phentsize, h.phnum, h.shentsize,
      h.shnum, h.shstrndx) := by
    rw [encode, List.append_assoc, List.drop_left' hi, restLayout.decode_encode]
  simp only [decode, h1, h2]

end Header

/-- Modelled from the spec: `elf::RplFileInfo`, in the field order and widths of the
spec's record layout. -/
structure RplFileInfo where
  version : UInt32
  textSize : UInt32
  textAlign : UInt32
  dataSize : UInt32
  dataAlign : UInt32
  loadSize : UInt32
  loadAlign : UInt32
  tempSize : UInt32
  trampAdjust : UInt32
  trampAddition : UInt32
  sdaBase : UInt32
  sda2Base : UInt32
  stackSize : UInt32
  heapSize : UInt32
  filename : UInt32
  flags : UInt32
  minVersion : UInt32
  compressionLevel : UInt32
  fileInfoPad : UInt32
  cafeSdkVersion : UInt32
  cafeSdkRevision : UInt32
  tlsAlignShift : UInt16
  tlsModuleIndex : UInt16
  runtimeFileInfoSize : UInt32
  tagOffset : UInt32
deriving DecidableEq, Repr

namespace RplFileInfo

open Layout in
/-- The 96-byte record the FILEINFO section carries. -/
def layout : Layout RplFileInfo :=
  (u32.prod (u32.prod (u32.prod (u32.prod (u32.prod (u32.prod (u32.prod (u32.prod
    (u32.prod (u32.prod (u32.prod (u32.prod (u32.prod (u32.prod (u32.prod (u32.prod
    (u32.prod (u32.prod (u32.prod (u32.prod (u32.prod (u16.prod (u16.prod (u32.prod
    u32)))))))))))))))))))))))).map
    (fun ⟨a, b, c, d, e, f, g, h, i, j, k, l, m, n, o, p, q, r, s, t, u, v, w, x, y⟩ =>
      ⟨a, b, c, d, e, f, g, h, i, j, k, l, m, n, o, p, q, r, s, t, u, v, w, x, y⟩)
    (fun r => (r.version, r.textSize, r.textAlign, r.dataSize, r.dataAlign, r.loadSize,
      r.loadAlign, r.tempSize, r.trampAdjust, r.trampAddition, r.sdaBase, r.sda2Base,
      r.stackSize, r.heapSize, r.filename, r.flags, r.minVersion, r.compressionLevel,
      r.fileInfoPad, r.cafeSdkVersion, r.cafeSdkRevision, r.tlsAlignShift,
      r.tlsModuleIndex, r.runtimeFileInfoSize, r.tagOffset))
    (fun _ => rfl) (fun _ => rfl)

@[simp] theorem layout_width : layout.width = 96 := rfl

end RplFileInfo

/-- `ElfFile::Section`. -/
structure Section where
  header : SectionHeader
  name : List UInt8
  data : List UInt8
deriving DecidableEq, Repr, Inhabited

/-- `ElfFile`. -/
structure ElfFile where
  header : Header
  sections : List Section
deriving DecidableEq, Repr

/-- The bytes of a string literal of the source, as `std::string` compares them. -/
def ascii (s : String) : List UInt8 := s.toList.map fun c => UInt8.ofNat c.toNat

/-- What the tool prints before a pass returns `false`. -/
inductive Diagnostic where
  | invalidMagic
  | unexpectedClass (fileClass : UInt8)
  | unexpectedEncoding (encoding : UInt8)
  | unexpectedMachine (machine : UInt16)
  | unexpectedVersion (elfVersion : UInt8)
  | invalidSection
  | missingSymbol (index : UInt32)
  | unsupportedRelocation (type : UInt32)
deriving DecidableEq, Repr

/-- The printed text of a diagnostic. -/
def Diagnostic.text : Diagnostic → String
  | .invalidMagic => "Invalid ELF magic header 7F454C46"
  | .unexpectedClass c => s!"Unexpected ELF file class {c}, expected {ELFCLASS32}"
  | .unexpectedEncoding e => s!"Unexpected ELF encoding {e}, expected {ELFDATA2MSB}"
  | .unexpectedMachine m => s!"Unexpected ELF machine type {m}, expected {EM_PPC}"
  | .unexpectedVersion v => s!"Unexpected ELF version {v}, expected {EV_CURRENT}"
  | .invalidSection => "Invalid section in elf file"
  | .missingSymbol i => s!"ERROR: Could not find symbol {i} for fixing a R_PPC_REL32 relocation"
  | .unsupportedRelocation t => s!"ERROR: Unsupported relocation type {t}"

/-- How a pass ends when it does not return `true`. -/
inductive Fault where
  /-- It returned `false` after printing these diagnostics. -/
  | failed (printed : List Diagnostic)
  /-- It indexed past the end of a container or dereferenced an emptied pointer. -/
  | undefined
deriving DecidableEq, Repr

/-- What a pass of the tool produces. -/
abbrev Outcome := Except Fault ElfFile

theorem bind_eq_ok {x : Except Fault α} {g : α → Except Fault β} {b : β} :
    x >>= g = .ok b ↔ ∃ a, x = .ok a ∧ g a = .ok b := by
  cases x <;> simp [bind, Except.bind]

/-- `getSectionIndex`: the index of the first section with this name, or `-1`. -/
def getSectionIndex (f : ElfFile) (name : List UInt8) : Int :=
  match f.sections.findIdx? (·.name == name) with
  | some i => i
  | none => -1

/-- `getSectionByType`: the first section of this type. -/
def getSectionByType (f : ElfFile) (type : UInt32) : Option Nat :=
  f.sections.findIdx? (·.header.type == type)

/-- `getSectionByName`: the first section with this name. -/
def getSectionByName (f : ElfFile) (name : List UInt8) : Option Nat :=
  let index := getSectionIndex f name
  if index = -1 then none else some index.toNat

theorem getSectionByName_eq (f : ElfFile) (name : List UInt8) :
    getSectionByName f name = f.sections.findIdx? (·.name == name) := by
  unfold getSectionByName getSectionIndex
  cases f.sections.findIdx? (·.name == name) <;> simp

/-- `file.sections[i]`, with the default section past the end. -/
def ElfFile.sec (f : ElfFile) (i : Nat) : Section := f.sections.getD i default

theorem ElfFile.sec_eq_getElem (f : ElfFile) {i : Nat} (hi : i < f.sections.length) :
    f.sec i = f.sections[i] :=
  List.getD_eq_getElem _ _ hi

theorem ElfFile.sec_of_le (f : ElfFile) {i : Nat} (hi : f.sections.length ≤ i) :
    f.sec i = default :=
  List.getD_eq_default _ _ hi

/-- Apply `g` to section `i`. -/
def ElfFile.modifySection (f : ElfFile) (i : Nat) (g : Section → Section) : ElfFile :=
  { f with sections := f.sections.modify g i }

@[simp] theorem ElfFile.modifySection_header (f : ElfFile) (i : Nat) (g : Section → Section) :
    (f.modifySection i g).header = f.header := rfl

theorem ElfFile.sec_modifySection (f : ElfFile) {i : Nat} (hi : i < f.sections.length)
    (g : Section → Section) (j : Nat) :
    (f.modifySection i g).sec j = if i = j then g (f.sec j) else f.sec j := by
  simp only [ElfFile.sec, ElfFile.modifySection, List.getD_eq_getElem?_getD, List.getElem?_modify]
  split_ifs with h
  · subst h
    simp [List.getElem?_eq_getElem hi]
  · cases f.sections[j]? <;> rfl

/-- Apply `g` to every section. -/
def ElfFile.mapSections (f : ElfFile) (g : Section → Section) : ElfFile :=
  { f with sections := f.sections.map g }

@[simp] theorem ElfFile.mapSections_header (f : ElfFile) (g : Section → Section) :
    (f.mapSections g).header = f.header := rfl

@[simp] theorem ElfFile.length_mapSections (f : ElfFile) (g : Section → Section) :
    (f.mapSections g).sections.length = f.sections.length := by
  simp [ElfFile.mapSections]

theorem ElfFile.sec_mapSections (f : ElfFile) {g : Section → Section} (hg : g default = default)
    (j : Nat) : (f.mapSections g).sec j = g (f.sec j) := by
  simp only [ElfFile.sec, ElfFile.mapSections, List.getD_eq_getElem?_getD, List.getElem?_map]
  cases f.sections[j]? <;> simp [hg]

/-- Two section lists agree when they have one length and every section agrees. -/
theorem ElfFile.sections_eq_of_sec {f f' : ElfFile} (hl : f.sections.length = f'.sections.length)
    (h : ∀ i, f.sec i = f'.sec i) : f.sections = f'.sections :=
  List.ext_getElem hl fun i h₁ h₂ => by
    rw [← ElfFile.sec_eq_getElem f h₁, ← ElfFile.sec_eq_getElem f' h₂, h]

theorem ElfFile.ext_sec {f f' : ElfFile} (hh : f.header = f'.header)
    (hl : f.sections.length = f'.sections.length) (h : ∀ i, f.sec i = f'.sec i) : f = f' := by
  have hs := ElfFile.sections_eq_of_sec hl h
  cases f
  cases f'
  simp_all

section Project

variable {β : Type} (p : Section → β)

theorem ElfFile.map_modifySection (f : ElfFile) (i : Nat) {g : Section → Section}
    (hg : ∀ s, p (g s) = p s) : (f.modifySection i g).sections.map p = f.sections.map p :=
  List.ext_getElem (by simp [ElfFile.modifySection]) fun k _ _ => by
    simp only [ElfFile.modifySection, List.getElem_map, List.getElem_modify]
    split_ifs <;> simp [hg]

theorem ElfFile.map_mapSections (f : ElfFile) {g : Section → Section} (hg : ∀ s, p (g s) = p s) :
    (f.mapSections g).sections.map p = f.sections.map p := by
  simp [ElfFile.mapSections, Function.comp_def, hg]

/-- Files that agree on a projection of every section agree on it section by section. -/
theorem ElfFile.sec_proj_eq {f f' : ElfFile} (h : f.sections.map p = f'.sections.map p)
    (i : Nat) : p (f.sec i) = p (f'.sec i) := by
  have hi := congrArg (·[i]?) h
  simp only [List.getElem?_map] at hi
  simp only [ElfFile.sec, List.getD_eq_getElem?_getD]
  cases h1 : f.sections[i]? <;> cases h2 : f'.sections[i]? <;> simp_all

end Project

/-- A lookup by name sees only the names. -/
theorem getSectionByName_congr {f f' : ElfFile}
    (h : f.sections.map Section.name = f'.sections.map Section.name) (name : List UInt8) :
    getSectionByName f name = getSectionByName f' name := by
  have hmap : ∀ l : List Section,
      l.findIdx? (·.name == name) = (l.map Section.name).findIdx? (· == name) :=
    fun l => by rw [List.findIdx?_map]; rfl
  rw [getSectionByName_eq, getSectionByName_eq, hmap, hmap, h]

@[simp] theorem ElfFile.length_modifySection (f : ElfFile) (i : Nat) (g : Section → Section) :
    (f.modifySection i g).sections.length = f.sections.length := by
  simp [ElfFile.modifySection]

end Elf2Rpl
