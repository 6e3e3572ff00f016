import Elf2Rpl.Format.Elf
import Mathlib.Data.List.Forall2

/-! # P1: reading the ELF file

`readElf` reads the file header, checks the five identification fields, then reads
`shnum` section headers from `shoff`, each followed by its payload, and finally resolves
every section's name in the string table at `shstrndx`. The reads go through an
`InputStream`: a read that finds fewer bytes than it asks for keeps the bytes it found,
leaves the rest of the buffer as it was (zeros: the section object is value-initialised
and the payload buffer is resized), and fails the stream, and a failed stream neither
seeks nor reads. So a section table or a payload running past the end of the file reads
as zeros and every section after it as the all-zero one, and `readElf` goes on to name
the sections as for any other file (`readSectionsFrom_past_end`). A file shorter than the 52-byte header leaves
header bytes unset, and an out-of-range `shstrndx` or name offset reads past its buffer:
these are undefined here.
-/

namespace Elf2Rpl

open elf

theorem mapM_eq_ok {f : α → Except Fault β} :
    ∀ {l : List α} {l' : List β}, l.mapM f = .ok l' ↔ List.Forall₂ (fun a b => f a = .ok b) l l'
  | [], l' => by rw [List.mapM_nil]; cases l' <;> simp [pure, Except.pure]
  | a :: l, l' => by
    have ih := fun u => @mapM_eq_ok _ _ f l u
    rw [List.mapM_cons, List.forall₂_cons_left_iff]
    cases h : f a <;> cases hl : l.mapM f <;> simp_all [bind, Except.bind, pure, Except.pure, ← ih]
    exact eq_comm

/-- A pass whose every step succeeds with `g` maps `g` over the list. -/
theorem mapM_eq_ok_map {f : α → Except Fault β} {g : α → β} {l : List α}
    (h : ∀ a ∈ l, f a = .ok (g a)) : l.mapM f = .ok (l.map g) :=
  mapM_eq_ok.mpr (List.forall₂_map_right_iff.mpr (List.forall₂_same.mpr h))

/-- The C string at byte `k` of a string table: the bytes before the next NUL.
Without a NUL after `k` the read runs off the table. -/
def cString (table : List UInt8) (k : Nat) : Except Fault (List UInt8) :=
  if 0 ∈ table.drop k then .ok ((table.drop k).takeWhile (· != 0)) else .error .undefined

/-- The input stream of `readElf`: its position, and whether it is still good. -/
structure InputStream where
  pos : Nat
  good : Bool
deriving DecidableEq, Repr

namespace InputStream

/-- `in.read(buf, n)` into a buffer of `n` zero bytes: the bytes the file has from the
position, then the zeros the buffer held. A read that finds fewer than `n` bytes fails the
stream, and a failed stream reads nothing. -/
def read (file : List UInt8) (st : InputStream) (n : Nat) : List UInt8 × InputStream :=
  if st.good then
    let got := (file.drop st.pos).take n
    (got ++ List.replicate (n - got.length) 0, ⟨st.pos + got.length, got.length == n⟩)
  else (List.replicate n 0, st)

/-- `in.seekg(p)`: a failed stream does not move. -/
def seek (st : InputStream) (p : Nat) : InputStream :=
  if st.good then ⟨p, true⟩ else st

@[simp] theorem length_read (file : List UInt8) (st : InputStream) (n : Nat) :
    (st.read file n).1.length = n := by
  unfold read
  split_ifs
  · simp only [List.length_append, List.length_take, List.length_replicate]
    omega
  · exact List.length_replicate _ _

/-- A read that the file covers gives its bytes and leaves the stream good behind them. -/
theorem read_of_le {file : List UInt8} {p n : Nat} (h : p + n ≤ file.length) :
    (⟨p, true⟩ : InputStream).read file n = ((file.drop p).take n, ⟨p + n, true⟩) := by
  have hl : ((file.drop p).take n).length = n := by
    rw [List.length_take, List.length_drop]
    omega
  simp [read, hl]

/-- A read that runs past the end of the file gives the bytes that are there, then zeros,
and fails the stream. -/
theorem read_past_end {file : List UInt8} {p n : Nat} (hn : 0 < n) (h : file.length < p + n) :
    (⟨p, true⟩ : InputStream).read file n =
      (file.drop p ++ List.replicate (n - (file.length - p)) 0, ⟨p + (file.length - p), false⟩) := by
  have ht : (file.drop p).take n = file.drop p :=
    List.take_of_length_le (by rw [List.length_drop]; omega)
  have hne : (file.length - p == n) = false := by simp only [beq_eq_false_iff_ne]; omega
  simp only [read, if_true, ht, List.length_drop, hne]

end InputStream

/-- One turn of readElf's section loop: the 40-byte section header at the stream's
position, then, unless the section is empty or `SHT_NOBITS`, `size` bytes from `offset`,
after which the stream seeks back behind the header (`tellg` of a failed stream gives no
position, and the seek back is a no-op). -/
def readSection (file : List UInt8) (st : InputStream) :
    (SectionHeader × List UInt8) × InputStream :=
  let hdr := st.read file 40
  let header := SectionHeader.layout.decode hdr.1
  if header.size = 0 ∨ header.type = SHT_NOBITS then ((header, []), hdr.2)
  else
    let data := (hdr.2.seek header.offset.toNat).read file header.size.toNat
    ((header, data.1), data.2.seek hdr.2.pos)

/-- `n` turns of the section loop from the stream `st`. -/
def readSectionsFrom (file : List UInt8) : Nat → InputStream → List (SectionHeader × List UInt8)
  | 0, _ => []
  | n + 1, st => (readSection file st).1 :: readSectionsFrom file n (readSection file st).2

/-- The checks on the identification fields, in the order readElf makes them. -/
def checkHeader (header : Header) : Except Fault Unit :=
  if header.magic ≠ HeaderMagic then .error (.failed [.invalidMagic])
  else if header.fileClass ≠ ELFCLASS32 then .error (.failed [.unexpectedClass header.fileClass])
  else if header.encoding ≠ ELFDATA2MSB then .error (.failed [.unexpectedEncoding header.encoding])
  else if header.machine ≠ EM_PPC then .error (.failed [.unexpectedMachine header.machine])
  else if header.elfVersion ≠ EV_CURRENT then
    .error (.failed [.unexpectedVersion header.elfVersion])
  else .ok ()

theorem decode_zeros : SectionHeader.layout.decode (List.replicate 40 0) = default := by decide

/-- Once the stream has failed, a turn of the loop reads the all-zero header, that of an
empty section, and no payload. -/
theorem readSection_failed (file : List UInt8) (p : Nat) :
    readSection file ⟨p, false⟩ = ((default, []), ⟨p, false⟩) := by
  have h0 : (default : SectionHeader).size = 0 := rfl
  simp only [readSection, InputStream.read, Bool.false_eq_true, if_false, decode_zeros, h0,
    true_or, if_true]

/-- Once the stream has failed, every later section is the all-zero one. -/
theorem readSectionsFrom_failed (file : List UInt8) (p : Nat) :
    ∀ n, readSectionsFrom file n ⟨p, false⟩ = List.replicate n (default, [])
  | 0 => rfl
  | n + 1 => by rw [readSectionsFrom, readSection_failed, readSectionsFrom_failed file p n]; rfl

/-- A payload that runs past the end of the file reads as the bytes that are there followed
by zeros, and fails the stream, so every later section reads as the all-zero one: the loop
still returns `n + 1` sections. -/
theorem readSectionsFrom_past_end {file : List UInt8} {p n : Nat} {h : SectionHeader}
    (hp : p + 40 ≤ file.length) (hh : SectionHeader.layout.decode ((file.drop p).take 40) = h)
    (hs : ¬(h.size = 0 ∨ h.type = SHT_NOBITS)) (hend : file.length < h.offset.toNat + h.size.toNat) :
    readSectionsFrom file (n + 1) ⟨p, true⟩ =
      (h, file.drop h.offset.toNat ++ List.replicate (h.size.toNat - (file.length - h.offset.toNat)) 0) ::
        List.replicate n (default, []) := by
  have hpos : 0 < h.size.toNat := Nat.pos_of_ne_zero fun h0 => hs (.inl (UInt32.toNat.inj h0))
  have hsec : readSection file ⟨p, true⟩ =
      ((h, file.drop h.offset.toNat ++ List.replicate (h.size.toNat - (file.length - h.offset.toNat)) 0),
        ⟨h.offset.toNat + (file.length - h.offset.toNat), false⟩) := by
    dsimp only [readSection]
    rw [InputStream.read_of_le hp]
    dsimp only
    rw [hh, if_neg hs, InputStream.seek, if_pos rfl, InputStream.read_past_end hpos hend]
    rfl
  rw [readSectionsFrom, hsec, readSectionsFrom_failed]

/-- The `shnum` section headers from `shoff`, with their payloads. -/
def readSections (file : List UInt8) (header : Header) : List (SectionHeader × List UInt8) :=
  readSectionsFrom file header.shnum.toNat ⟨header.shoff.toNat, true⟩

/-- Resolve every name in the payload of section `shstrndx`. -/
def nameSections (raw : List (SectionHeader × List UInt8)) (shstrndx : Nat) :
    Except Fault (List Section) :=
  match raw[shstrndx]? with
  | none => .error .undefined
  | some (_, table) =>
    raw.mapM fun (header, data) => do
      let name ← cString table header.name.toNat
      pure { header, name, data }

/-- `readElf`. -/
def readElf (file : List UInt8) : Outcome :=
  if file.length < 52 then .error .undefined
  else do
    let header := Header.decode file
    checkHeader header
    let sections ← nameSections (readSections file header) header.shstrndx.toNat
    pure { header, sections }

theorem readElf_eq_ok {file : List UInt8} {f : ElfFile} (h : readElf file = .ok f) :
    52 ≤ file.length ∧ f.header = Header.decode file ∧ checkHeader f.header = .ok () ∧
      nameSections (readSections file f.header) f.header.shstrndx.toNat = .ok f.sections := by
  unfold readElf at h
  split at h
  · cases h
  · obtain ⟨_, hc, h⟩ := bind_eq_ok.mp h
    obtain ⟨secs, hsecs, h⟩ := bind_eq_ok.mp h
    cases h
    exact ⟨by omega, rfl, hc, hsecs⟩

theorem nameSections_eq_ok {raw : List (SectionHeader × List UInt8)} {k : Nat}
    {secs : List Section} (h : nameSections raw k = .ok secs) :
    raw = secs.map fun s => (s.header, s.data) := by
  unfold nameSections at h
  split at h
  · cases h
  · have hraw : List.Forall₂ (fun r s => r = (s.header, s.data)) raw secs :=
      (mapM_eq_ok.mp h).imp fun r s hs => by
        obtain ⟨name, -, hsec⟩ := bind_eq_ok.mp hs
        cases hsec
        rfl
    rw [← List.forall₂_eq_eq_eq]
    exact List.forall₂_map_right_iff.mpr hraw

theorem length_readSectionsFrom (file : List UInt8) :
    ∀ n st, (readSectionsFrom file n st).length = n
  | 0, _ => rfl
  | n + 1, _ => congrArg (· + 1) (length_readSectionsFrom file n _)

/-- A turn of the loop reads a payload exactly when the header it read gives one. -/
theorem readSection_data_eq_nil_iff (file : List UInt8) (st : InputStream) :
    (readSection file st).1.2 = [] ↔
      (readSection file st).1.1.size = 0 ∨ (readSection file st).1.1.type = SHT_NOBITS := by
  dsimp only [readSection]
  split_ifs with h
  · exact iff_of_true rfl h
  · refine iff_of_false (fun hd => h (.inl (UInt32.toNat.inj ?_))) h
    simpa using congrArg List.length hd

theorem readSectionsFrom_data_eq_nil_iff (file : List UInt8) :
    ∀ n st, ∀ r ∈ readSectionsFrom file n st, (r.2 = [] ↔ r.1.size = 0 ∨ r.1.type = SHT_NOBITS)
  | 0, _ => by simp [readSectionsFrom]
  | n + 1, st => by
    simp only [readSectionsFrom, List.forall_mem_cons]
    exact ⟨readSection_data_eq_nil_iff file st, readSectionsFrom_data_eq_nil_iff file n _⟩

/-- The sections readElf returns are the headers and payloads its section loop read. -/
theorem readElf_sections {file : List UInt8} {f : ElfFile} (h : readElf file = .ok f) :
    readSections file f.header = f.sections.map fun s => (s.header, s.data) :=
  nameSections_eq_ok (readElf_eq_ok h).2.2.2

theorem readElf_length_lt {file : List UInt8} {f : ElfFile} (h : readElf file = .ok f) :
    f.sections.length < 2 ^ 16 := by
  have hl := congrArg List.length (readElf_sections h)
  rw [List.length_map, readSections, length_readSectionsFrom] at hl
  rw [← hl]
  exact f.header.shnum.toNat_lt_size

/-- A section readElf returns has a payload exactly when its header gives it one. -/
theorem readElf_data_eq_nil_iff {file : List UInt8} {f : ElfFile} (h : readElf file = .ok f)
    {s : Section} (hs : s ∈ f.sections) :
    s.data = [] ↔ s.header.size = 0 ∨ s.header.type = SHT_NOBITS := by
  have hmem : (s.header, s.data) ∈ readSections file f.header := by
    rw [readElf_sections h]
    exact List.mem_map_of_mem _ hs
  exact readSectionsFrom_data_eq_nil_iff file _ _ _ hmem

/-- readElf reads no payload for an empty or `SHT_NOBITS` section. -/
theorem readElf_data_eq_nil {file : List UInt8} {f : ElfFile} (h : readElf file = .ok f)
    {s : Section} (hs : s ∈ f.sections) (hsize : s.header.size = 0 ∨ s.header.type = SHT_NOBITS) :
    s.data = [] :=
  (readElf_data_eq_nil_iff h hs).mpr hsize

end Elf2Rpl
