import Elf2Rpl.Format.Elf
import Mathlib.Data.List.Nodup

/-! # P5 and P6: alignment and loader addresses

`fixSectionAlign` sets the alignment of code, data, `.bss` and import sections.
`fixLoaderVirtualAddresses` then moves `.fexports`, `.dexports`, `.symtab`, `.strtab`,
`.shstrtab` and every import section, in that order, to a cursor that starts at
`LoadBaseAddress`: each section goes to the cursor aligned up to its `addralign`, and
the cursor then advances by the section's payload length. Every move is made by
`relocateSection`, which also shifts each symbol value and each relocation offset that
lies in the section's old address window.

Above the code's model sits `placedFile`: the file with every target's address set
and every value passed through all the windows in order. `fixLoaderVirtualAddresses`
computes exactly that file (`fixLoaderVirtualAddresses_eq`).
-/

namespace Elf2Rpl

open elf

/-- `LoadBaseAddress`. -/
def LoadBaseAddress : UInt32 := 0xC0000000

/-- `align_up` on a `uint32_t`. -/
def alignUp32 (v a : UInt32) : UInt32 := UInt32.ofNat (alignUp v.toNat a.toNat)

/-- The alignment `fixSectionAlign` gives a section header. -/
def sectionAlign (h : SectionHeader) : SectionHeader :=
  if h.type = SHT_PROGBITS then { h with addralign := 32 }
  else if h.type = SHT_NOBITS then { h with addralign := 64 }
  else if h.type = SHT_RPL_IMPORTS then { h with addralign := 4 }
  else h

/-- `fixSectionAlign`. -/
def fixSectionAlign (f : ElfFile) : Outcome :=
  .ok (f.mapSections fun s => { s with header := sectionAlign s.header })

@[simp] theorem sectionAlign_type (h : SectionHeader) : (sectionAlign h).type = h.type := by
  unfold sectionAlign; split_ifs <;> rfl

/-- `fixSectionAlign` changes only `addralign`. -/
theorem sectionAlign_eq (h : SectionHeader) : { sectionAlign h with addralign := h.addralign } = h := by
  unfold sectionAlign; split_ifs <;> rfl

/-- One call of `relocateSection`: the section's old address, the size of its window
(`size_t`, so the window's end does not wrap), and its new address. -/
structure Move where
  old : UInt32
  size : Nat
  new : UInt32
deriving DecidableEq, Repr

/-- Whether `value >= oldSectionAddress && value <= oldSectionAddressEnd`: the closed
window `[old, old + size]` holds `v`. -/
def Move.catches (mv : Move) (v : UInt32) : Bool :=
  decide (mv.old ≤ v) && decide (v.toNat ≤ mv.old.toNat + mv.size)

/-- What a move does to a symbol value or a relocation offset: a value in its window is
shifted by `new - old`, modulo `2 ^ 32`. -/
def Move.apply (mv : Move) (v : UInt32) : UInt32 :=
  if mv.catches v then v - mv.old + mv.new else v

/-- The symbols `relocateSection` moves: `STT_OBJECT`, `STT_FUNC` and `STT_SECTION`. -/
def isRelocatableSymbol (sym : Symbol) : Bool :=
  let type := sym.info &&& 0xf
  type == STT_OBJECT || type == STT_FUNC || type == STT_SECTION

/-- The symbol loop of `relocateSection`, on one section. -/
def relocateSymbols (mv : Move) (s : Section) : Section :=
  if s.header.type ≠ SHT_SYMTAB then s
  else { s with data := Symbol.layout.mapRecords (fun sym =>
    if isRelocatableSymbol sym then { sym with value := mv.apply sym.value } else sym) s.data }

/-- The relocation loop of `relocateSection`, on one section. -/
def relocateRelas (mv : Move) (s : Section) : Section :=
  if s.header.type ≠ SHT_RELA then s
  else { s with data := Rela.layout.mapRecords (fun r => { r with offset := mv.apply r.offset }) s.data }

/-- `sectionSize`: the payload length, or the declared size for an empty payload. -/
def sectionSize (s : Section) : Nat :=
  if s.data.length ≠ 0 then s.data.length else s.header.size.toNat

/-- `relocateSection`. -/
def relocateSection (f : ElfFile) (i : Nat) (newSectionAddress : UInt32) : ElfFile :=
  let mv : Move := ⟨(f.sec i).header.addr, sectionSize (f.sec i), newSectionAddress⟩
  let f := f.mapSections (relocateSymbols mv)
  let f := f.mapSections (relocateRelas mv)
  f.modifySection i fun s => { s with header := { s.header with addr := newSectionAddress } }

/-- `header.flags |= SHF_ALLOC`. -/
def setAlloc (s : Section) : Section :=
  { s with header := { s.header with flags := s.header.flags ||| SHF_ALLOC } }

/-- One section of `fixLoaderVirtualAddresses`: move section `i` to the cursor aligned up
to its `addralign`, mark it allocated when asked, and advance the cursor by its payload
length. -/
def placeSection (alloc : Bool) (st : ElfFile × UInt32) (i : Nat) : ElfFile × UInt32 :=
  let f := relocateSection st.1 i (alignUp32 st.2 (st.1.sec i).header.addralign)
  let f := if alloc then f.modifySection i setAlloc else f
  (f, st.2 + UInt32.ofNat (f.sec i).data.length)

/-- `if (auto section = getSectionByName(file, name)) { ... }`. -/
def placeByName (name : String) (alloc : Bool) (st : ElfFile × UInt32) : ElfFile × UInt32 :=
  match getSectionByName st.1 (ascii name) with
  | none => st
  | some i => placeSection alloc st i

/-- The loop over import sections. -/
def placeImports (st : ElfFile × UInt32) : ElfFile × UInt32 :=
  (List.range st.1.sections.length).foldl (fun st i =>
    if (st.1.sec i).header.type = SHT_RPL_IMPORTS then placeSection false st i else st) st

/-- `fixLoaderVirtualAddresses`. -/
def fixLoaderVirtualAddresses (f : ElfFile) : Outcome :=
  let st := placeByName ".fexports" false (f, LoadBaseAddress)
  let st := placeByName ".dexports" false st
  let st := placeByName ".symtab" true st
  let st := placeByName ".strtab" true st
  let st := placeByName ".shstrtab" true st
  .ok (placeImports st).1

@[simp] theorem length_relocateSection (f : ElfFile) (i : Nat) (a : UInt32) :
    (relocateSection f i a).sections.length = f.sections.length := by
  simp [relocateSection]

@[simp] theorem length_placeSection (alloc : Bool) (st : ElfFile × UInt32) (i : Nat) :
    (placeSection alloc st i).1.sections.length = st.1.sections.length := by
  unfold placeSection; split_ifs <;> simp

@[simp] theorem header_placeSection (alloc : Bool) (st : ElfFile × UInt32) (i : Nat) :
    (placeSection alloc st i).1.header = st.1.header := by
  unfold placeSection; split_ifs <;> rfl

theorem placeSection_snd (alloc : Bool) (st : ElfFile × UInt32) (i : Nat) :
    (placeSection alloc st i).2 =
      st.2 + UInt32.ofNat ((placeSection alloc st i).1.sec i).data.length := rfl

/-- A list of moves applied in order. -/
def Move.applyAll (ms : List Move) (v : UInt32) : UInt32 := ms.foldl (fun v mv => mv.apply v) v

/-- A symbol after the moves `ms`. -/
def moveSymbol (ms : List Move) (sym : Symbol) : Symbol :=
  if isRelocatableSymbol sym then { sym with value := Move.applyAll ms sym.value } else sym

/-- A relocation record after the moves `ms`. -/
def moveRela (ms : List Move) (r : Rela) : Rela := { r with offset := Move.applyAll ms r.offset }

/-- The payload of a section of type `type` after the moves `ms`. -/
def moveData (ms : List Move) (type : UInt32) (d : List UInt8) : List UInt8 :=
  if type = SHT_SYMTAB then Symbol.layout.mapRecords (moveSymbol ms) d
  else if type = SHT_RELA then Rela.layout.mapRecords (moveRela ms) d
  else d

@[simp] theorem Move.applyAll_append (ms ms' : List Move) (v : UInt32) :
    Move.applyAll (ms ++ ms') v = Move.applyAll ms' (Move.applyAll ms v) :=
  List.foldl_append _ _ _ _

@[simp] theorem length_moveData (ms : List Move) (type : UInt32) (d : List UInt8) :
    (moveData ms type d).length = d.length := by
  unfold moveData; split_ifs <;> simp

theorem moveData_nil (type : UInt32) (d : List UInt8) : moveData [] type d = d := by
  have hs : moveSymbol [] = id := funext fun sym => by
    unfold moveSymbol; split_ifs <;> rfl
  have hr : moveRela [] = id := funext fun r => rfl
  unfold moveData
  split_ifs <;> simp [hs, hr, Layout.mapRecords_id]

/-- The two loops of one `relocateSection` call add one move to a section's payload. -/
theorem relocate_moveData (mv : Move) (ms : List Move) (s : Section) :
    relocateRelas mv (relocateSymbols mv { s with data := moveData ms s.header.type s.data }) =
      { s with data := moveData (ms ++ [mv]) s.header.type s.data } := by
  have hsym : ((fun sym => if isRelocatableSymbol sym then { sym with value := mv.apply sym.value }
      else sym) ∘ moveSymbol ms) = moveSymbol (ms ++ [mv]) := funext fun sym => by
    by_cases h : isRelocatableSymbol sym
    · have h' : isRelocatableSymbol { sym with value := Move.applyAll ms sym.value } = true := h
      simp only [Function.comp, moveSymbol, if_pos h, if_pos h', Move.applyAll_append]
      rfl
    · simp [moveSymbol, h]
  have hrel : ((fun r : Rela => { r with offset := mv.apply r.offset }) ∘ moveRela ms) =
      moveRela (ms ++ [mv]) := funext fun r => by simp [moveRela, Move.applyAll]
  have hsr : SHT_SYMTAB ≠ SHT_RELA := by decide
  unfold relocateRelas relocateSymbols moveData
  by_cases h1 : s.header.type = SHT_SYMTAB
  · simp [h1, hsr, Layout.mapRecords_mapRecords, hsym]
  · by_cases h2 : s.header.type = SHT_RELA
    · simp [h1, h2, hsr.symm, Layout.mapRecords_mapRecords, hrel]
    · simp [h1, h2]

/-- The header of section `i` once the targets `ts` went to the moves `ms`: the address
of its first move, and `SHF_ALLOC` if that target asked for it. -/
def placedHeader (i : Nat) (h : SectionHeader) : List (Nat × Bool) → List Move → SectionHeader
  | t :: ts, mv :: ms =>
    if t.1 = i then { h with addr := mv.new, flags := if t.2 then h.flags ||| SHF_ALLOC else h.flags }
    else placedHeader i h ts ms
  | _, _ => h

/-- The file once the targets `ts` went to the moves `ms`, every value having passed
through all of them. -/
def placedFile (f : ElfFile) (ts : List (Nat × Bool)) (ms : List Move) : ElfFile :=
  { f with sections := f.sections.mapIdx fun i s =>
      { s with header := placedHeader i s.header ts ms, data := moveData ms s.header.type s.data } }

/-- The move of section `s` from cursor `c`. -/
def moveOf (s : Section) (c : UInt32) : Move :=
  ⟨s.header.addr, sectionSize s, alignUp32 c s.header.addralign⟩

/-- The moves `fixLoaderVirtualAddresses` makes for the targets `ts`, computed from its
input `f` and the cursor `c`. -/
def loaderMoves (f : ElfFile) : List (Nat × Bool) → UInt32 → List Move
  | [], _ => []
  | t :: ts, c => moveOf (f.sec t.1) c :: loaderMoves f ts (c + UInt32.ofNat (f.sec t.1).data.length)

/-- The sections `fixLoaderVirtualAddresses` moves, in order, each with whether it is
marked allocated. -/
def loaderTargets (f : ElfFile) : List (Nat × Bool) :=
  ([(".fexports", false), (".dexports", false), (".symtab", true), (".strtab", true),
      (".shstrtab", true)].filterMap fun p => (getSectionByName f (ascii p.1)).map (·, p.2)) ++
    ((List.range f.sections.length).filter fun i =>
      (f.sec i).header.type = SHT_RPL_IMPORTS).map (·, false)

@[simp] theorem length_loaderMoves (f : ElfFile) (ts : List (Nat × Bool)) (c : UInt32) :
    (loaderMoves f ts c).length = ts.length := by
  induction ts generalizing c <;> simp [loaderMoves, *]

theorem placedHeader_type (i : Nat) (h : SectionHeader) :
    ∀ ts ms, (placedHeader i h ts ms).type = h.type
  | _ :: _, _ :: _ => by unfold placedHeader; split_ifs <;> simp [placedHeader_type]
  | [], _ => rfl
  | _ :: _, [] => rfl

theorem placedHeader_of_not_mem (i : Nat) (h : SectionHeader) :
    ∀ ts ms, i ∉ ts.map Prod.fst → placedHeader i h ts ms = h
  | t :: ts, _ :: ms, hi => by
    simp only [List.map_cons, List.mem_cons, not_or] at hi
    simp [placedHeader, Ne.symm hi.1, placedHeader_of_not_mem i h ts ms hi.2]
  | [], _, _ => rfl
  | _ :: _, [], _ => rfl

theorem placedHeader_append (i : Nat) (h : SectionHeader) (t : Nat × Bool) (mv : Move) :
    ∀ ts ms, ts.length = ms.length → i ∉ ts.map Prod.fst →
      placedHeader i h (ts ++ [t]) (ms ++ [mv]) =
        if t.1 = i then { h with addr := mv.new, flags := if t.2 then h.flags ||| SHF_ALLOC else h.flags }
        else h
  | [], [], _, _ => by simp [placedHeader]
  | t' :: ts, _ :: ms, hl, hi => by
    simp only [List.map_cons, List.mem_cons, not_or] at hi
    simp only [List.cons_append, placedHeader, Ne.symm hi.1, if_false]
    exact placedHeader_append i h t mv ts ms (by simpa using hl) hi.2

theorem placedHeader_ne (i : Nat) (h : SectionHeader) (t : Nat × Bool) (mv : Move) (ht : t.1 ≠ i) :
    ∀ ts ms, ts.length = ms.length →
      placedHeader i h (ts ++ [t]) (ms ++ [mv]) = placedHeader i h ts ms
  | [], [], _ => by simp [placedHeader, ht]
  | t' :: ts, _ :: ms, hl => by
    rw [List.cons_append, List.cons_append, placedHeader, placedHeader,
      placedHeader_ne i h t mv ht ts ms (by simpa using hl)]
  | [], _ :: _, hl => by simp at hl
  | _ :: _, [], hl => by simp at hl

/-- Section `j` after one `relocateSection` call. -/
theorem sec_relocateSection (g : ElfFile) {i : Nat} (hi : i < g.sections.length) (a : UInt32)
    (j : Nat) : (relocateSection g i a).sec j =
      if i = j then
        { relocateRelas ⟨(g.sec i).header.addr, sectionSize (g.sec i), a⟩
            (relocateSymbols ⟨(g.sec i).header.addr, sectionSize (g.sec i), a⟩ (g.sec j)) with
          header := { (g.sec j).header with addr := a } }
      else relocateRelas ⟨(g.sec i).header.addr, sectionSize (g.sec i), a⟩
        (relocateSymbols ⟨(g.sec i).header.addr, sectionSize (g.sec i), a⟩ (g.sec j)) := by
  unfold relocateSection
  rw [ElfFile.sec_modifySection _ (by simpa using hi), ElfFile.sec_mapSections _ rfl,
    ElfFile.sec_mapSections _ rfl]
  split_ifs with hij
  · subst hij
    unfold relocateRelas relocateSymbols
    split_ifs <;> rfl
  · rfl

section Placed

variable (f : ElfFile) (ts : List (Nat × Bool)) (ms : List Move)

@[simp] theorem length_placedFile : (placedFile f ts ms).sections.length = f.sections.length := by
  simp [placedFile]

@[simp] theorem header_placedFile : (placedFile f ts ms).header = f.header := rfl

theorem sec_placedFile {i : Nat} (hi : i < f.sections.length) :
    (placedFile f ts ms).sec i =
      { (f.sec i) with
        header := placedHeader i (f.sec i).header ts ms
        data := moveData ms (f.sec i).header.type (f.sec i).data } := by
  rw [ElfFile.sec_eq_getElem _ (by simpa using hi), ElfFile.sec_eq_getElem f hi]
  simp [placedFile, List.getElem_mapIdx]

theorem names_placedFile :
    (placedFile f ts ms).sections.map Section.name = f.sections.map Section.name :=
  List.ext_getElem (by simp) fun i _ _ => by simp [placedFile, List.getElem_mapIdx]

theorem placedFile_nil : placedFile f [] [] = f := by
  cases f with
  | mk header sections =>
    simp only [placedFile, ElfFile.mk.injEq, true_and]
    refine List.ext_getElem (by simp) fun i _ _ => ?_
    simp [List.getElem_mapIdx, placedHeader, moveData_nil]

end Placed

/-- One section placed from a cursor `c`: the targets gain it and the moves gain its
move, computed from the input; the cursor advances by its payload length. -/
theorem placeSection_placedFile (f : ElfFile) {ts : List (Nat × Bool)} {ms : List Move}
    (c : UInt32) {i : Nat} (a : Bool) (hi : i < f.sections.length) (hl : ts.length = ms.length)
    (hnot : i ∉ ts.map Prod.fst) :
    placeSection a (placedFile f ts ms, c) i =
      (placedFile f (ts ++ [(i, a)]) (ms ++ [moveOf (f.sec i) c]),
        c + UInt32.ofNat (f.sec i).data.length) := by
  have hsi := sec_placedFile f ts ms hi
  rw [placedHeader_of_not_mem i _ ts ms hnot] at hsi
  have hmv : (⟨((placedFile f ts ms).sec i).header.addr, sectionSize ((placedFile f ts ms).sec i),
      alignUp32 c ((placedFile f ts ms).sec i).header.addralign⟩ : Move) = moveOf (f.sec i) c := by
    simp [hsi, moveOf, sectionSize]
  have hnew : alignUp32 c ((placedFile f ts ms).sec i).header.addralign =
      (moveOf (f.sec i) c).new := by
    simp [hsi, moveOf]
  have hi' : i < (placedFile f ts ms).sections.length := by simpa using hi
  /- Section `j` after the move, `SHF_ALLOC` included. -/
  have hsec : ∀ j, (placeSection a (placedFile f ts ms, c) i).1.sec j =
      (placedFile f (ts ++ [(i, a)]) (ms ++ [moveOf (f.sec i) c])).sec j := by
    intro j
    by_cases hj : j < f.sections.length
    · have hmove := relocate_moveData (moveOf (f.sec i) c) ms
        { (f.sec j) with header := placedHeader j (f.sec j).header ts ms }
      simp only [placedHeader_type] at hmove
      have hrel := sec_relocateSection (placedFile f ts ms) hi'
        (alignUp32 c ((placedFile f ts ms).sec i).header.addralign) j
      rw [hmv, sec_placedFile f ts ms hj, hmove, hnew] at hrel
      rw [sec_placedFile f _ _ hj]
      cases a with
      | false =>
        simp only [placeSection, Bool.false_eq_true, if_false]
        rw [hnew, hrel]
        split_ifs with hij
        · subst hij
          simp [placedHeader_append _ _ _ _ ts ms hl hnot, placedHeader_of_not_mem _ _ ts ms hnot]
        · simp [placedHeader_ne j _ (i, false) _ hij ts ms hl]
      | true =>
        simp only [placeSection, if_true]
        rw [ElfFile.sec_modifySection _ (by simpa [relocateSection] using hi), hnew, hrel]
        split_ifs with hij
        · subst hij
          simp [setAlloc, placedHeader_append _ _ _ _ ts ms hl hnot,
            placedHeader_of_not_mem _ _ ts ms hnot]
        · simp [placedHeader_ne j _ (i, true) _ hij ts ms hl]
    · have hle : f.sections.length ≤ j := by omega
      rw [ElfFile.sec_of_le _ (by simpa using hle), ElfFile.sec_of_le _ (by simpa using hle)]
  refine Prod.ext (ElfFile.ext_sec (by simp) (by simp) hsec) ?_
  rw [placeSection_snd, hsec i, sec_placedFile f _ _ hi]
  simp

/-- Sections placed one after another. -/
def placeAll (ts : List (Nat × Bool)) (st : ElfFile × UInt32) : ElfFile × UInt32 :=
  ts.foldl (fun st t => placeSection t.2 st t.1) st

/-- What the lookups of `fixLoaderVirtualAddresses` read: a section's name and type. -/
def nameAndType (s : Section) : List UInt8 × UInt32 := (s.name, s.header.type)

theorem placeAll_append (ts ts' : List (Nat × Bool)) (st : ElfFile × UInt32) :
    placeAll (ts ++ ts') st = placeAll ts' (placeAll ts st) :=
  List.foldl_append _ _ _ _

/-- A projection of the sections that none of the rewrites of one placement changes is
kept by the placement. -/
theorem proj_placeSection {β : Type} (p : Section → β)
    (h1 : ∀ mv s, p (relocateSymbols mv s) = p s) (h2 : ∀ mv s, p (relocateRelas mv s) = p s)
    (h3 : ∀ (a : UInt32) s, p { s with header := { s.header with addr := a } } = p s)
    (h4 : ∀ s, p (setAlloc s) = p s) (a : Bool) (st : ElfFile × UInt32) (i : Nat) :
    (placeSection a st i).1.sections.map p = st.1.sections.map p := by
  unfold placeSection relocateSection
  dsimp only
  split_ifs <;> simp only [ElfFile.map_modifySection p _ _ h4,
    ElfFile.map_modifySection p _ _ (h3 _), ElfFile.map_mapSections p _ (h1 _),
    ElfFile.map_mapSections p _ (h2 _)]

theorem proj_placeAll {β : Type} (p : Section → β)
    (h : ∀ a st i, (placeSection a st i).1.sections.map p = st.1.sections.map p)
    (ts : List (Nat × Bool)) (st : ElfFile × UInt32) :
    (placeAll ts st).1.sections.map p = st.1.sections.map p := by
  induction ts generalizing st with
  | nil => rfl
  | cons t ts ih => exact (ih _).trans (h _ _ _)

theorem nameAndType_placeSection (a : Bool) (st : ElfFile × UInt32) (i : Nat) :
    (placeSection a st i).1.sections.map nameAndType = st.1.sections.map nameAndType :=
  proj_placeSection nameAndType (fun mv s => by unfold relocateSymbols; split_ifs <;> rfl)
    (fun mv s => by unfold relocateRelas; split_ifs <;> rfl) (fun _ _ => rfl) (fun _ => rfl) a st i

theorem nameAndType_placeAll (ts : List (Nat × Bool)) (st : ElfFile × UInt32) :
    (placeAll ts st).1.sections.map nameAndType = st.1.sections.map nameAndType :=
  proj_placeAll nameAndType nameAndType_placeSection ts st

/-- What the pipeline needs of a section after P6: name, type and payload length. -/
def sectionShape (s : Section) : List UInt8 × UInt32 × Nat := (s.name, s.header.type, s.data.length)

theorem sectionShape_placeSection (a : Bool) (st : ElfFile × UInt32) (i : Nat) :
    (placeSection a st i).1.sections.map sectionShape = st.1.sections.map sectionShape :=
  proj_placeSection sectionShape
    (fun mv s => by unfold relocateSymbols; split_ifs <;> simp [sectionShape])
    (fun mv s => by unfold relocateRelas; split_ifs <;> simp [sectionShape])
    (fun _ _ => rfl) (fun _ => rfl) a st i

section Targets

variable {f : ElfFile} {st : ElfFile × UInt32}

theorem names_of_nameAndType (h : st.1.sections.map nameAndType = f.sections.map nameAndType) :
    st.1.sections.map Section.name = f.sections.map Section.name := by
  have := congrArg (List.map Prod.fst) h
  simpa [List.map_map, nameAndType, Function.comp_def] using this

theorem placeByName_eq (name : String) (a : Bool)
    (h : st.1.sections.map nameAndType = f.sections.map nameAndType) :
    placeByName name a st = placeAll ((getSectionByName f (ascii name)).map (·, a)).toList st := by
  unfold placeByName
  rw [getSectionByName_congr (names_of_nameAndType h)]
  cases getSectionByName f (ascii name) <;> rfl

theorem placeImports_eq (h : st.1.sections.map nameAndType = f.sections.map nameAndType) :
    placeImports st = placeAll (((List.range f.sections.length).filter fun i =>
      (f.sec i).header.type = SHT_RPL_IMPORTS).map (·, false)) st := by
  have hlen : st.1.sections.length = f.sections.length := by
    simpa using congrArg List.length h
  unfold placeImports
  rw [hlen]
  generalize List.range f.sections.length = is
  induction is generalizing st with
  | nil => rfl
  | cons i is ih =>
    have hty : (st.1.sec i).header.type = (f.sec i).header.type :=
      congrArg Prod.snd (ElfFile.sec_proj_eq nameAndType h i)
    by_cases himp : (f.sec i).header.type = SHT_RPL_IMPORTS
    · rw [List.foldl_cons, hty, if_pos himp, List.filter_cons_of_pos (by simpa using himp),
        List.map_cons]
      exact ih ((nameAndType_placeSection _ _ _).trans h) (by simpa using hlen)
    · rw [List.foldl_cons, hty, if_neg himp, List.filter_cons_of_neg (by simpa using himp)]
      exact ih h hlen

end Targets

theorem filterMap_cons_toList {α β : Type} (g : α → Option β) (a : α) (l : List α) :
    (a :: l).filterMap g = (g a).toList ++ l.filterMap g := by
  rw [List.filterMap_cons]
  cases g a <;> rfl

/-- `fixLoaderVirtualAddresses` places its targets, in order, from `LoadBaseAddress`. -/
theorem fixLoaderVirtualAddresses_eq_placeAll (f : ElfFile) :
    fixLoaderVirtualAddresses f = .ok (placeAll (loaderTargets f) (f, LoadBaseAddress)).1 := by
  simp only [fixLoaderVirtualAddresses, loaderTargets, filterMap_cons_toList, List.filterMap_nil,
    List.append_nil, List.append_assoc, placeAll_append]
  rw [placeByName_eq (f := f) ".fexports" false rfl, placeByName_eq (f := f) ".dexports" false,
    placeByName_eq (f := f) ".symtab" true, placeByName_eq (f := f) ".strtab" true,
    placeByName_eq (f := f) ".shstrtab" true, placeImports_eq (f := f)]
  all_goals simp only [nameAndType_placeAll]

theorem header_placeAll (ts : List (Nat × Bool)) (st : ElfFile × UInt32) :
    (placeAll ts st).1.header = st.1.header := by
  induction ts generalizing st with
  | nil => rfl
  | cons t ts ih => exact (ih _).trans (header_placeSection _ _ _)

/-- `fixLoaderVirtualAddresses` always succeeds, and keeps the header and every
section's name, type and payload length. -/
theorem fixLoaderVirtualAddresses_shape (f : ElfFile) : ∃ f', fixLoaderVirtualAddresses f = .ok f' ∧
    f'.header = f.header ∧ f'.sections.map sectionShape = f.sections.map sectionShape :=
  ⟨_, fixLoaderVirtualAddresses_eq_placeAll f, header_placeAll _ _,
    proj_placeAll sectionShape sectionShape_placeSection _ _⟩

theorem lt_of_mem_loaderTargets {f : ElfFile} {t : Nat × Bool} (ht : t ∈ loaderTargets f) :
    t.1 < f.sections.length := by
  simp only [loaderTargets, List.mem_append, List.mem_filterMap, List.mem_map, List.mem_filter,
    List.mem_range] at ht
  rcases ht with ⟨p, -, hp⟩ | ⟨i, ⟨hi, -⟩, rfl⟩
  · obtain ⟨i, hi, rfl⟩ := Option.map_eq_some'.mp hp
    rw [getSectionByName_eq] at hi
    exact (List.findIdx?_eq_some_iff_getElem.mp hi).1
  · exact hi

/-- The run from a partly placed file: the remaining targets are placed with the moves
computed from the input. -/
theorem placeAll_placedFile (f : ElfFile) :
    ∀ (ts done : List (Nat × Bool)) (ms : List Move) (c : UInt32), done.length = ms.length →
      ((done ++ ts).map Prod.fst).Nodup → (∀ t ∈ ts, t.1 < f.sections.length) →
      ∃ c', placeAll ts (placedFile f done ms, c) = (placedFile f (done ++ ts) (ms ++ loaderMoves f ts c), c')
  | [], done, ms, c, _, _, _ => ⟨c, by simp [placeAll, loaderMoves]⟩
  | t :: ts, done, ms, c, hl, hnd, hlt => by
    have hnot : t.1 ∉ done.map Prod.fst := by
      simp only [List.map_append, List.map_cons, List.nodup_append, List.nodup_cons] at hnd
      exact fun h => hnd.2.2 h (List.mem_cons_self _ _)
    have hstep := placeSection_placedFile f c t.2 (hlt t (List.mem_cons_self _ _)) hl hnot
    obtain ⟨c', hc'⟩ := placeAll_placedFile f ts (done ++ [t]) (ms ++ [moveOf (f.sec t.1) c])
      (c + UInt32.ofNat (f.sec t.1).data.length) (by simp [hl]) (by simpa using hnd)
      (fun t' ht' => hlt t' (List.mem_cons_of_mem _ ht'))
    refine ⟨c', ?_⟩
    rw [placeAll, List.foldl_cons, hstep]
    simpa [placeAll, loaderMoves] using hc'

/-- When no section is a target twice, `fixLoaderVirtualAddresses` computes `placedFile`:
each target at its move's new address, every value through every move in order. -/
theorem fixLoaderVirtualAddresses_eq (f : ElfFile) (hnd : ((loaderTargets f).map Prod.fst).Nodup) :
    fixLoaderVirtualAddresses f = .ok (placedFile f (loaderTargets f)
      (loaderMoves f (loaderTargets f) LoadBaseAddress)) := by
  obtain ⟨c', h⟩ := placeAll_placedFile f (loaderTargets f) [] [] LoadBaseAddress rfl
    (by simpa using hnd) fun _ ht => lt_of_mem_loaderTargets ht
  rw [fixLoaderVirtualAddresses_eq_placeAll, ← placedFile_nil f]
  simp only [placedFile_nil] at h ⊢
  rw [h]
  simp

theorem applyAll_of_not_catches {v : UInt32} :
    ∀ ms : List Move, (∀ m ∈ ms, m.catches v = false) → Move.applyAll ms v = v
  | [], _ => rfl
  | m :: ms, h => by
    have hm : m.apply v = v := by simp [Move.apply, h m (List.mem_cons_self _ _)]
    simpa [Move.applyAll, hm] using applyAll_of_not_catches ms fun m' hm' =>
      h m' (List.mem_cons_of_mem _ hm')

/-- A value caught by one window, by no window before it, and, once shifted, by no
window after it, is shifted by that window alone. -/
theorem applyAll_of_catches {ms₁ ms₂ : List Move} {mv : Move} {v : UInt32}
    (h₁ : ∀ m ∈ ms₁, m.catches v = false) (hv : mv.catches v = true)
    (h₂ : ∀ m ∈ ms₂, m.catches (mv.apply v) = false) :
    Move.applyAll (ms₁ ++ mv :: ms₂) v = v - mv.old + mv.new := by
  rw [← List.singleton_append, ← List.append_assoc, Move.applyAll_append, Move.applyAll_append,
    applyAll_of_not_catches ms₁ h₁, applyAll_of_not_catches ms₂ (by simpa [Move.applyAll] using h₂)]
  simp [Move.applyAll, Move.apply, hv]

/-- The same, for move `k` of a list of moves. -/
theorem applyAll_of_catches_at {ms : List Move} {k : Nat} {mv : Move} {v : UInt32}
    (hk : ms[k]? = some mv) (h₁ : ∀ m ∈ ms.take k, m.catches v = false)
    (hv : mv.catches v = true) (h₂ : ∀ m ∈ ms.drop (k + 1), m.catches (mv.apply v) = false) :
    Move.applyAll ms v = v - mv.old + mv.new := by
  obtain ⟨hlt, hmv⟩ := List.getElem?_eq_some_iff.mp hk
  have hsplit : ms.take k ++ mv :: ms.drop (k + 1) = ms := by
    rw [← hmv, ← List.drop_eq_getElem_cons hlt, List.take_append_drop]
  rw [← hsplit]
  exact applyAll_of_catches h₁ hv h₂

theorem placedHeader_addr (i : Nat) (h : SectionHeader) :
    ∀ (ts : List (Nat × Bool)) (ms : List Move) (k : Nat) (t : Nat × Bool) (mv : Move),
      (ts.map Prod.fst).Nodup → ts[k]? = some t → ms[k]? = some mv → t.1 = i →
      (placedHeader i h ts ms).addr = mv.new
  | t' :: ts, mv' :: ms, 0, t, mv, _, ht, hm, hi => by
    simp only [List.getElem?_cons_zero, Option.some.injEq] at ht hm
    subst ht hm
    simp [placedHeader, hi]
  | t' :: ts, mv' :: ms, k + 1, t, mv, hnd, ht, hm, hi => by
    simp only [List.getElem?_cons_succ] at ht hm
    simp only [List.map_cons, List.nodup_cons] at hnd
    have hne : t'.1 ≠ i := fun he => hnd.1 (by
      rw [he, ← hi]
      exact List.mem_map_of_mem Prod.fst (List.getElem?_mem ht))
    simp only [placedHeader, hne, if_false]
    exact placedHeader_addr i h ts ms k t mv hnd.2 ht hm hi
  | [], _, _, _, _, _, ht, _, _ => by simp at ht
  | _ :: _, [], _, _, _, _, _, hm, _ => by simp at hm

theorem getElem?_loaderMoves (f : ElfFile) :
    ∀ (ts : List (Nat × Bool)) (c : UInt32) (k : Nat) (t : Nat × Bool) (mv : Move),
      ts[k]? = some t → (loaderMoves f ts c)[k]? = some mv →
      mv.old = (f.sec t.1).header.addr ∧ mv.size = sectionSize (f.sec t.1)
  | t' :: ts, c, 0, t, mv, ht, hm => by
    simp only [loaderMoves, List.getElem?_cons_zero, Option.some.injEq] at ht hm
    subst ht hm
    exact ⟨rfl, rfl⟩
  | t' :: ts, c, k + 1, t, mv, ht, hm => by
    simp only [loaderMoves, List.getElem?_cons_succ] at ht hm
    exact getElem?_loaderMoves f ts _ k t mv ht hm
  | [], _, _, _, _, ht, _ => by simp at ht

/-- What `fixLoaderVirtualAddresses` does when no section is moved twice (no import
section is also the first `.fexports`, `.dexports`, `.symtab`, `.strtab` or `.shstrtab`).
With `ms` the moves it makes, each taking a target's original window `[addr, addr + size]`
to the aligned cursor: every `OBJECT`, `FUNC` or `SECTION` symbol value of every symbol
table and every offset of every relocation table passes through all of `ms` in order; each
target ends at its move's new address and every other section keeps its address. So a
value caught by move `k`, by no move before it, and, once shifted, by no move after it is
shifted by move `k`, and a value no move catches is left alone: whichever section it
belongs to, a value is moved by the windows it falls in. -/
theorem fixLoaderVirtualAddresses_shifts_by_windows (f : ElfFile)
    (hnd : ((loaderTargets f).map Prod.fst).Nodup) :
    ∃ g, fixLoaderVirtualAddresses f = .ok g ∧
      (∀ j, (f.sec j).header.type = SHT_SYMTAB →
        Symbol.layout.records (g.sec j).data = (Symbol.layout.records (f.sec j).data).map
          (moveSymbol (loaderMoves f (loaderTargets f) LoadBaseAddress)) ∧
        Symbol.layout.trailing (g.sec j).data = Symbol.layout.trailing (f.sec j).data) ∧
      (∀ j, (f.sec j).header.type = SHT_RELA →
        Rela.layout.records (g.sec j).data = (Rela.layout.records (f.sec j).data).map
          (moveRela (loaderMoves f (loaderTargets f) LoadBaseAddress)) ∧
        Rela.layout.trailing (g.sec j).data = Rela.layout.trailing (f.sec j).data) ∧
      (∀ j, (f.sec j).header.type ≠ SHT_SYMTAB → (f.sec j).header.type ≠ SHT_RELA →
        (g.sec j).data = (f.sec j).data) ∧
      (∀ (k : Nat) (t : Nat × Bool) (mv : Move), (loaderTargets f)[k]? = some t →
        (loaderMoves f (loaderTargets f) LoadBaseAddress)[k]? = some mv →
        mv.old = (f.sec t.1).header.addr ∧ mv.size = sectionSize (f.sec t.1) ∧
          (g.sec t.1).header.addr = mv.new) ∧
      (∀ j, j ∉ (loaderTargets f).map Prod.fst → (g.sec j).header.addr = (f.sec j).header.addr) ∧
      (∀ (k : Nat) (mv : Move) (v : UInt32),
        (loaderMoves f (loaderTargets f) LoadBaseAddress)[k]? = some mv →
        (∀ m ∈ (loaderMoves f (loaderTargets f) LoadBaseAddress).take k, m.catches v = false) →
        mv.catches v = true →
        (∀ m ∈ (loaderMoves f (loaderTargets f) LoadBaseAddress).drop (k + 1),
          m.catches (mv.apply v) = false) →
        Move.applyAll (loaderMoves f (loaderTargets f) LoadBaseAddress) v = v - mv.old + mv.new) ∧
      (∀ v : UInt32, (∀ m ∈ loaderMoves f (loaderTargets f) LoadBaseAddress, m.catches v = false) →
        Move.applyAll (loaderMoves f (loaderTargets f) LoadBaseAddress) v = v) := by
  have hsr : SHT_SYMTAB ≠ SHT_RELA := by decide
  have hsec : ∀ j, j < f.sections.length → (placedFile f (loaderTargets f)
      (loaderMoves f (loaderTargets f) LoadBaseAddress)).sec j = _ :=
    fun j hj => sec_placedFile f _ _ hj
  refine ⟨_, fixLoaderVirtualAddresses_eq f hnd, fun j hj => ?_, fun j hj => ?_, fun j h1 h2 => ?_,
    fun k t mv ht hm => ?_, fun j hj => ?_, fun _ _ _ => applyAll_of_catches_at,
    fun _ => applyAll_of_not_catches _⟩
  · have hlt : j < f.sections.length := by
      by_contra h
      rw [ElfFile.sec_of_le f (by omega)] at hj
      exact absurd hj (by decide)
    simp [hsec j hlt, moveData, hj]
  · have hlt : j < f.sections.length := by
      by_contra h
      rw [ElfFile.sec_of_le f (by omega)] at hj
      exact absurd hj (by decide)
    simp [hsec j hlt, moveData, hj, hsr.symm]
  · by_cases hlt : j < f.sections.length
    · simp [hsec j hlt, moveData, h1, h2]
    · rw [ElfFile.sec_of_le f (by omega), ElfFile.sec_of_le _ (by simpa using hlt)]
  · obtain ⟨h1, h2⟩ := getElem?_loaderMoves f _ _ k t mv ht hm
    have hlt := lt_of_mem_loaderTargets (List.getElem?_mem ht)
    refine ⟨h1, h2, ?_⟩
    rw [hsec _ hlt]
    exact placedHeader_addr _ _ _ _ k t mv hnd ht hm rfl
  · by_cases hlt : j < f.sections.length
    · simp [hsec j hlt, placedHeader_of_not_mem _ _ _ _ hj]
    · rw [ElfFile.sec_of_le f (by omega), ElfFile.sec_of_le _ (by simpa using hlt)]

/-- A `.comment` section and a `.symtab`, both at address 0; the symbol table holds the
section symbol of `.comment`, of value 0. -/
def commentAndSymtab : ElfFile :=
  ⟨default, [default,
    ⟨{ (default : SectionHeader) with type := SHT_PROGBITS, size := 4 }, ascii ".comment", [1, 2, 3, 4]⟩,
    ⟨{ (default : SectionHeader) with type := SHT_SYMTAB, addralign := 4 }, ascii ".symtab",
      Symbol.layout.encode ⟨0, 0, 0, STT_SECTION, 0, 1⟩⟩]⟩

theorem fixLoaderVirtualAddresses_shifts_by_windows_commentAndSymtab :
    ((loaderTargets commentAndSymtab).map Prod.fst).Nodup ∧
      ∃ g, fixLoaderVirtualAddresses commentAndSymtab = .ok g :=
  ⟨by decide,
    (fixLoaderVirtualAddresses_shifts_by_windows commentAndSymtab (by decide)).imp fun _ h => h.1⟩

/-- Only `.symtab` is moved, yet the section symbol of `.comment` is moved with it:
its value 0 lies in the window `[0, 16]` of `.symtab`. -/
theorem fixLoaderVirtualAddresses_moves_foreign_symbol :
    (loaderTargets commentAndSymtab).map Prod.fst = [2] ∧
      (Symbol.layout.records (commentAndSymtab.sec 2).data).map (fun sym => (sym.shndx, sym.value)) =
        [(1, 0)] ∧
      ∃ g, fixLoaderVirtualAddresses commentAndSymtab = .ok g ∧
        (Symbol.layout.records (g.sec 2).data).map Symbol.value = [0xC0000000] :=
  ⟨by decide, by decide, _, rfl, by decide⟩

/-- `.fexports` of 8 bytes aligned to 4, `.dexports` of 32 bytes aligned to 32 and
`.symtab` of 16 bytes aligned to 4. -/
def exportsAndSymtab : ElfFile :=
  ⟨default, [default,
    ⟨{ (default : SectionHeader) with type := SHT_RPL_EXPORTS, addralign := 4 }, ascii ".fexports",
      List.replicate 8 0⟩,
    ⟨{ (default : SectionHeader) with type := SHT_RPL_EXPORTS, addralign := 32 }, ascii ".dexports",
      List.replicate 32 0⟩,
    ⟨{ (default : SectionHeader) with type := SHT_SYMTAB, addralign := 4 }, ascii ".symtab",
      List.replicate 16 0⟩]⟩

/-- The cursor advances from where it was before alignment: `.dexports` is placed at
`0xC0000020` but the cursor moves on only to `0xC0000028`, where `.symtab` is then placed,
inside `.dexports`. -/
theorem fixLoaderVirtualAddresses_overlaps :
    ∃ g, fixLoaderVirtualAddresses exportsAndSymtab = .ok g ∧
      (g.sec 1).header.addr = 0xC0000000 ∧ (g.sec 2).header.addr = 0xC0000020 ∧
      (g.sec 3).header.addr = 0xC0000028 ∧
      (g.sec 3).header.addr.toNat < (g.sec 2).header.addr.toNat + (g.sec 2).data.length :=
  ⟨_, rfl, by decide, by decide, by decide, by decide⟩

end Elf2Rpl
