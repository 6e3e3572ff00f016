import Elf2Rpl.Tool.FileInfo

/-! # P8: the `RPL_CRCS` section

`generateCrcSection` takes one CRC-32 per section, inserts a 0 before the last entry,
and inserts a section holding the big-endian table before the last section, the
`FILEINFO` section P7 appended. Both insertions happen one place before the end, so
entry `i` of the table belongs to section `i` of the new list and the entry at the new
section's own index is the inserted 0 (`generateCrcSection_eq_ok`).

zlib is not part of the tool. `Zlib` carries the two results of it the tool uses, and
every statement about them holds for any functions in their place.
-/

namespace Elf2Rpl

open elf

/-- What the tool takes from zlib: `crc32(crc32(0, Z_NULL, 0), data, size)`, and the
whole stream `deflate` at level 6 produces for a buffer, or `none` where a call of
`deflate` answers `Z_STREAM_ERROR`. -/
structure Zlib where
  crc32 : List UInt8 → UInt32
  compress : List UInt8 → Option (List UInt8)

/-- `v.insert(v.end() - 1, x)`. -/
def insertBeforeLast (l : List α) (x : α) : List α :=
  l.take (l.length - 1) ++ x :: l.drop (l.length - 1)

/-- The CRC `generateCrcSection` records for a section: 0 for an empty payload. -/
def sectionCrc (z : Zlib) (s : Section) : UInt32 :=
  if s.data.length ≠ 0 then z.crc32 s.data else 0

theorem sectionCrc_eq (z : Zlib) (s : Section) :
    sectionCrc z s = if s.data = [] then 0 else z.crc32 s.data := by
  by_cases h : s.data = [] <;> simp [sectionCrc, h]

/-- The section that carries the table of `be_val<uint32_t>` entries. -/
def crcSection (crcs : List UInt32) : Section where
  header := { name := 0, type := SHT_RPL_CRCS, flags := 0, addr := 0, offset := 0, size := 0,
              link := 0, info := 0, addralign := 4, entsize := 4 }
  name := []
  data := Layout.u32.encodeAll crcs

/-- `generateCrcSection`. `crcs.end() - 1` on an empty vector is undefined. -/
def generateCrcSection (z : Zlib) (f : ElfFile) : Outcome :=
  if f.sections = [] then .error .undefined
  else
    let crcs := insertBeforeLast (f.sections.map (sectionCrc z)) 0
    .ok { f with sections := insertBeforeLast f.sections (crcSection crcs) }

section Insert

variable {α β : Type} (l : List α) (x : α)

@[simp] theorem length_insertBeforeLast : (insertBeforeLast l x).length = l.length + 1 := by
  simp only [insertBeforeLast, List.length_append, List.length_cons, List.length_take,
    List.length_drop]
  omega

theorem map_insertBeforeLast (g : α → β) :
    (insertBeforeLast l x).map g = insertBeforeLast (l.map g) (g x) := by
  simp [insertBeforeLast, List.map_take, List.map_drop]

theorem set_insertBeforeLast (y : α) :
    (insertBeforeLast l x).set (l.length - 1) y = insertBeforeLast l y := by
  have h : (l.take (l.length - 1)).length ≤ l.length - 1 := by simp
  rw [insertBeforeLast, List.set_append_right _ _ h]
  simp [insertBeforeLast]

theorem insertBeforeLast_of_ne_nil (hl : l ≠ []) :
    ∃ pre last, l = pre ++ [last] ∧ insertBeforeLast l x = pre ++ [x, last] := by
  obtain ⟨pre, last, rfl⟩ := List.eq_nil_or_concat l |>.resolve_left hl
  refine ⟨pre, last, List.concat_eq_append _ _, ?_⟩
  simp [insertBeforeLast, List.take_append_of_le_length, List.drop_append_of_le_length]

end Insert

/-- The table is the CRC of every section of the new list, with the entry at the new
section's index set to 0: the inserted section's own CRC is never taken. -/
theorem crcTable_eq (z : Zlib) {l : List Section} (s : Section) :
    insertBeforeLast (l.map (sectionCrc z)) 0 =
      ((insertBeforeLast l s).map (sectionCrc z)).set (l.length - 1) 0 := by
  rw [map_insertBeforeLast, ← List.length_map l (sectionCrc z), set_insertBeforeLast]

@[simp] theorem crcSection_type (crcs : List UInt32) :
    (crcSection crcs).header.type = SHT_RPL_CRCS := rfl

@[simp] theorem crcSection_name (crcs : List UInt32) : (crcSection crcs).name = [] := rfl

/-- `generateCrcSection` succeeds exactly on a nonempty list. It inserts the table
section one place before the end, and the table holds, for every section of the new
list, the CRC of its payload, with 0 at the table section's own index. -/
theorem generateCrcSection_eq_ok (z : Zlib) {f f' : ElfFile} :
    generateCrcSection z f = .ok f' ↔ f.sections ≠ [] ∧ ∃ crcs,
      f' = { f with sections := insertBeforeLast f.sections (crcSection crcs) } ∧
      crcs = (f'.sections.map (sectionCrc z)).set (f.sections.length - 1) 0 := by
  unfold generateCrcSection
  split_ifs with h
  · simp [h]
  · constructor
    · intro he
      cases he
      exact ⟨h, _, rfl, crcTable_eq z _⟩
    · rintro ⟨-, crcs, rfl, hc⟩
      simp only [Except.ok.injEq, ElfFile.mk.injEq, true_and]
      rw [hc, ← crcTable_eq]

end Elf2Rpl
