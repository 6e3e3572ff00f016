import Elf2Rpl.Format.Elf
import Mathlib.Data.List.Nodup

/-! # P4: lowering relocations

The loader accepts only some PowerPC relocation types. `fixRelocations` walks every
`SHT_RELA` section, clears its flags and rewrites its records in place: a supported
type is kept, an `R_PPC_REL32` whose symbol exists in the linked symbol table becomes a
`GHS_REL16_HI` record plus a `GHS_REL16_LO` record appended after the table, and any
other type is reported once, however many records and tables carry it
(`fixRelocations_reports_each_type_once`). The pass fails if a symbol was missing or a
type was unsupported.
-/

namespace Elf2Rpl

open elf

namespace Rela

/-- `info & 0xFF`. -/
def type (r : Rela) : UInt32 := r.info &&& 0xFF

/-- `info >> 8`. -/
def symbolIndex (r : Rela) : UInt32 := r.info >>> 8

end Rela

/-- The relocation types the loader supports, which `fixRelocations` keeps. -/
def supportedTypes : List UInt32 :=
  [R_PPC_NONE, R_PPC_ADDR32, R_PPC_ADDR16_LO, R_PPC_ADDR16_HI, R_PPC_ADDR16_HA, R_PPC_REL24,
    R_PPC_REL14, R_PPC_DTPMOD32, R_PPC_DTPREL32, R_PPC_EMB_SDA21, R_PPC_EMB_RELSDA,
    R_PPC_DIAB_SDA21_LO, R_PPC_DIAB_SDA21_HI, R_PPC_DIAB_SDA21_HA, R_PPC_DIAB_RELSDA_LO,
    R_PPC_DIAB_RELSDA_HI, R_PPC_DIAB_RELSDA_HA]

/-- `getSymbol`: symbol `index` of a symbol table, if the table holds that many. -/
def getSymbol (symbols : List UInt8) (index : UInt32) : Option Symbol :=
  if index.toNat < Symbol.layout.count symbols then
    some ((Symbol.layout.records symbols).getD index.toNat default)
  else none

/-- The `R_PPC_GHS_REL16_HI` record an `R_PPC_REL32` record is rewritten to. -/
def relocHi (r : Rela) : Rela :=
  { offset := r.offset, info := (r.symbolIndex <<< 8) ||| R_PPC_GHS_REL16_HI, addend := r.addend }

/-- The `R_PPC_GHS_REL16_LO` record appended for an `R_PPC_REL32` record. -/
def relocLo (r : Rela) : Rela :=
  { offset := r.offset + 2, info := (r.symbolIndex <<< 8) ||| R_PPC_GHS_REL16_LO,
    addend := r.addend + 2 }

/-- What `fixRelocations` carries from section to section: the unsupported types
already reported, `result`, and the diagnostics printed so far. -/
structure RelocState where
  unsupportedTypes : List UInt32
  result : Bool
  printed : List Diagnostic

/-- The loop over one relocation table: the records as rewritten so far, the
`newRelocations` to append, and the shared state. -/
structure RelaLoop where
  rels : List Rela
  newRelocations : List Rela
  state : RelocState

/-- One turn of the record loop, against the linked symbol table `symbols`. -/
def fixRelocation (symbols : List UInt8) (l : RelaLoop) (r : Rela) : RelaLoop :=
  if r.type ∈ supportedTypes then { l with rels := l.rels ++ [r] }
  else if r.type = R_PPC_REL32 then
    match getSymbol symbols r.symbolIndex with
    | none =>
      { l with rels := l.rels ++ [r],
               state := { l.state with printed := l.state.printed ++ [.missingSymbol r.symbolIndex],
                                       result := false } }
    | some _ =>
      { l with rels := l.rels ++ [relocHi r], newRelocations := l.newRelocations ++ [relocLo r] }
  else if r.type ∈ l.state.unsupportedTypes then { l with rels := l.rels ++ [r] }
  else
    { l with rels := l.rels ++ [r],
             state := { l.state with printed := l.state.printed ++ [.unsupportedRelocation r.type],
                                     unsupportedTypes := l.state.unsupportedTypes ++ [r.type] } }

/-- One relocation section after its record loop: flags cleared, records rewritten in
place, and the new records inserted at the end of the data. -/
def fixRelocationTable (symbols : List UInt8) (st : RelocState) (s : Section) :
    Section × RelocState :=
  let l := (Rela.layout.records s.data).foldl (fixRelocation symbols) ⟨[], [], st⟩
  ({ s with header := { s.header with flags := 0 },
            data := Rela.layout.encodeAll l.rels ++ Rela.layout.trailing s.data ++
              Rela.layout.encodeAll l.newRelocations }, l.state)

/-- One turn of the section loop. Taking `file.sections[link]` or `file.sections[info]`
past the end of the list is undefined. -/
def fixRelocationSection (f : ElfFile) (st : RelocState) (j : Nat) :
    Except Fault (ElfFile × RelocState) :=
  let s := f.sec j
  if s.header.type ≠ SHT_RELA then .ok (f, st)
  else if f.sections.length ≤ s.header.link.toNat ∨ f.sections.length ≤ s.header.info.toNat then
    .error .undefined
  else
    let r := fixRelocationTable (f.sec s.header.link.toNat).data st s
    .ok ({ f with sections := f.sections.set j r.1 }, r.2)

/-- The section loop of `fixRelocations`. -/
def relocationLoop (f : ElfFile) : Except Fault (ElfFile × RelocState) :=
  (List.range f.sections.length).foldlM (fun acc j => fixRelocationSection acc.1 acc.2 j)
    (f, ⟨[], true, []⟩)

/-- `fixRelocations`. -/
def fixRelocations (f : ElfFile) : Outcome :=
  relocationLoop f >>= fun r =>
    if r.2.result && r.2.unsupportedTypes.isEmpty then .ok r.1 else .error (.failed r.2.printed)

/-- Whether a record is lowered: an `R_PPC_REL32` whose symbol the table holds. -/
def lowersTo (numSymbols : Nat) (r : Rela) : Bool :=
  r.type == R_PPC_REL32 && decide (r.symbolIndex.toNat < numSymbols)

/-- Whether the pass accepts a record: a supported type, or a record it lowers. -/
def acceptsRelocation (numSymbols : Nat) (r : Rela) : Bool :=
  decide (r.type ∈ supportedTypes) || lowersTo numSymbols r

/-- The record left in place of `r`. -/
def lowerRecord (numSymbols : Nat) (r : Rela) : Rela :=
  if lowersTo numSymbols r then relocHi r else r

/-- A relocation section with every lowered record rewritten in place and its
`GHS_REL16_LO` partner appended, in the order of the records, after the data. -/
def loweredSection (numSymbols : Nat) (s : Section) : Section :=
  { s with header := { s.header with flags := 0 },
           data := Rela.layout.encodeAll ((Rela.layout.records s.data).map (lowerRecord numSymbols)) ++
             Rela.layout.trailing s.data ++ Rela.layout.encodeAll
               (((Rela.layout.records s.data).filter (lowersTo numSymbols)).map relocLo) }

theorem lowersTo_eq (numSymbols : Nat) (r : Rela) :
    lowersTo numSymbols r = decide (r.type = R_PPC_REL32 ∧ r.symbolIndex.toNat < numSymbols) := by
  exact Bool.eq_iff_iff.mpr (by simp [lowersTo])

theorem lowerRecord_eq (numSymbols : Nat) (r : Rela) :
    lowerRecord numSymbols r = if r.type = R_PPC_REL32 ∧ r.symbolIndex.toNat < numSymbols then
      { offset := r.offset, info := (r.symbolIndex <<< 8) ||| R_PPC_GHS_REL16_HI, addend := r.addend }
      else r := by
  simp only [lowerRecord, lowersTo_eq, decide_eq_true_eq, relocHi]

theorem supportedTypes_ne_rel32 {t : UInt32} (ht : t ∈ supportedTypes) : t ≠ R_PPC_REL32 := by
  rintro rfl
  revert ht
  decide

theorem getSymbol_isSome (symbols : List UInt8) (index : UInt32) :
    (getSymbol symbols index).isSome ↔ index.toNat < Symbol.layout.count symbols := by
  unfold getSymbol
  split_ifs with h <;> simp [h]

section RecordLoop

variable (symbols : List UInt8)

/-- What one record does to the loop: the record left in place, the record appended,
and the two ways the state can turn to failure. -/
theorem fixRelocation_spec (l : RelaLoop) (r : Rela) :
    (fixRelocation symbols l r).rels = l.rels ++ [lowerRecord (Symbol.layout.count symbols) r] ∧
    (fixRelocation symbols l r).newRelocations = l.newRelocations ++
      ([r].filter (lowersTo (Symbol.layout.count symbols))).map relocLo ∧
    ((fixRelocation symbols l r).state.result = true ↔ l.state.result = true ∧
      (r.type = R_PPC_REL32 → r.symbolIndex.toNat < Symbol.layout.count symbols)) ∧
    ((fixRelocation symbols l r).state.unsupportedTypes = [] ↔ l.state.unsupportedTypes = [] ∧
      (r.type ∈ supportedTypes ∨ r.type = R_PPC_REL32)) := by
  have hs := getSymbol_isSome symbols r.symbolIndex
  unfold fixRelocation
  by_cases h1 : r.type ∈ supportedTypes
  · have h2 := supportedTypes_ne_rel32 h1
    simp [h1, h2, lowerRecord, lowersTo]
  by_cases h2 : r.type = R_PPC_REL32
  · rw [if_neg h1, if_pos h2]
    cases hg : getSymbol symbols r.symbolIndex with
    | none =>
      have hlt : ¬r.symbolIndex.toNat < Symbol.layout.count symbols := by simpa [hg] using hs
      simp [h2, hlt, lowerRecord, lowersTo]
    | some _ =>
      have hlt : r.symbolIndex.toNat < Symbol.layout.count symbols := by simpa [hg] using hs
      simp [h2, hlt, lowerRecord, lowersTo]
  · by_cases h3 : r.type ∈ l.state.unsupportedTypes
    · have hne : l.state.unsupportedTypes ≠ [] := List.ne_nil_of_mem h3
      simp [h1, h2, h3, hne, lowerRecord, lowersTo]
    · simp [h1, h2, h3, lowerRecord, lowersTo]

/-- The record loop over a whole table. -/
theorem foldl_fixRelocation (rs : List Rela) (l : RelaLoop) :
    (rs.foldl (fixRelocation symbols) l).rels =
      l.rels ++ rs.map (lowerRecord (Symbol.layout.count symbols)) ∧
    (rs.foldl (fixRelocation symbols) l).newRelocations =
      l.newRelocations ++ (rs.filter (lowersTo (Symbol.layout.count symbols))).map relocLo ∧
    ((rs.foldl (fixRelocation symbols) l).state.result = true ↔ l.state.result = true ∧
      ∀ r ∈ rs, r.type = R_PPC_REL32 → r.symbolIndex.toNat < Symbol.layout.count symbols) ∧
    ((rs.foldl (fixRelocation symbols) l).state.unsupportedTypes = [] ↔
      l.state.unsupportedTypes = [] ∧ ∀ r ∈ rs, r.type ∈ supportedTypes ∨ r.type = R_PPC_REL32) := by
  induction rs generalizing l with
  | nil => simp
  | cons r rs ih =>
    obtain ⟨h1, h2, h3, h4⟩ := fixRelocation_spec symbols l r
    obtain ⟨i1, i2, i3, i4⟩ := ih (fixRelocation symbols l r)
    simp only [List.foldl_cons, List.map_cons, List.mem_cons, forall_eq_or_imp]
    refine ⟨by simp [i1, h1], ?_, by rw [i3, h3, and_assoc], by rw [i4, h4, and_assoc]⟩
    rw [i2, h2]
    cases hp : lowersTo (Symbol.layout.count symbols) r <;> simp [List.filter_cons, hp]

/-- A relocation table after its loop is `loweredSection`, whatever state it started in. -/
theorem fixRelocationTable_fst (st : RelocState) (s : Section) :
    (fixRelocationTable symbols st s).1 = loweredSection (Symbol.layout.count symbols) s := by
  obtain ⟨h1, h2, -, -⟩ := foldl_fixRelocation symbols (Rela.layout.records s.data) ⟨[], [], st⟩
  simp only [fixRelocationTable, loweredSection, h1, h2, List.nil_append]

theorem fixRelocationTable_ok (st : RelocState) (s : Section) :
    ((fixRelocationTable symbols st s).2.result = true ∧
      (fixRelocationTable symbols st s).2.unsupportedTypes = []) ↔
    (st.result = true ∧ st.unsupportedTypes = []) ∧
      ∀ r ∈ Rela.layout.records s.data, acceptsRelocation (Symbol.layout.count symbols) r := by
  obtain ⟨-, -, h3, h4⟩ := foldl_fixRelocation symbols (Rela.layout.records s.data) ⟨[], [], st⟩
  simp only [fixRelocationTable, h3, h4, acceptsRelocation, lowersTo, Bool.or_eq_true,
    decide_eq_true_eq, Bool.and_eq_true, beq_iff_eq]
  constructor
  · rintro ⟨⟨hr, hs⟩, hu, ht⟩
    refine ⟨⟨hr, hu⟩, fun r hr' => ?_⟩
    rcases ht r hr' with h | h
    · exact .inl h
    · exact .inr ⟨h, hs r hr' h⟩
  · rintro ⟨⟨hr, hu⟩, ha⟩
    refine ⟨⟨hr, fun r hr' ht => ?_⟩, hu, fun r hr' => ?_⟩
    · rcases ha r hr' with h | h
      · exact absurd ht (supportedTypes_ne_rel32 h)
      · exact h.2
    · rcases ha r hr' with h | h
      · exact .inl h
      · exact .inr h.1

end RecordLoop

/-- The symbol count of the table relocation section `s` links to. -/
def linkedCount (f : ElfFile) (s : Section) : Nat :=
  Symbol.layout.count (f.sec s.header.link.toNat).data

/-- Whether relocation section `s` links to a section that is not a relocation
section, so that no turn of the loop rewrites the table it counts symbols in. -/
def linksOutside (f : ElfFile) (s : Section) : Prop :=
  (f.sec s.header.link.toNat).header.type ≠ SHT_RELA

theorem sec_set (g : ElfFile) (x : Section) {m : Nat} (hm : m < g.sections.length) (i : Nat) :
    ElfFile.sec { g with sections := g.sections.set m x } i = if m = i then x else g.sec i := by
  simp only [ElfFile.sec, List.getD_eq_getElem?_getD, List.getElem?_set, hm]
  split_ifs <;> simp_all

section SectionLoop

variable (f : ElfFile)

/-- Where the section loop stands after sections `0 .. m - 1`: each relocation section
among them that links outside has become `loweredSection`, every other section is as it
was, and the state has failed exactly when one of their records was not accepted. -/
structure LoopInvariant (m : Nat) (g : ElfFile) (st : RelocState) : Prop where
  header : g.header = f.header
  length : g.sections.length = f.sections.length
  unchanged : ∀ i, (m ≤ i ∨ (f.sec i).header.type ≠ SHT_RELA) → g.sec i = f.sec i
  lowered : ∀ i < m, (f.sec i).header.type = SHT_RELA → linksOutside f (f.sec i) →
    g.sec i = loweredSection (linkedCount f (f.sec i)) (f.sec i)
  state : (∀ i < m, (f.sec i).header.type = SHT_RELA → linksOutside f (f.sec i)) →
    (st.result = true ∧ st.unsupportedTypes = [] ↔ ∀ i < m, (f.sec i).header.type = SHT_RELA →
      ∀ r ∈ Rela.layout.records (f.sec i).data, acceptsRelocation (linkedCount f (f.sec i)) r)

theorem loopInvariant_zero : LoopInvariant f 0 f ⟨[], true, []⟩ :=
  ⟨rfl, rfl, fun _ _ => rfl, fun _ h => absurd h (Nat.not_lt_zero _), fun _ => by simp⟩

/-- One turn of the section loop keeps the invariant, when the turn's section indexes
nothing past the end. -/
theorem loopInvariant_step {m : Nat} {g : ElfFile} {st : RelocState}
    (hI : LoopInvariant f m g st) (hm : m < f.sections.length)
    (hrange : (f.sec m).header.type = SHT_RELA →
      (f.sec m).header.link.toNat < f.sections.length ∧
        (f.sec m).header.info.toNat < f.sections.length) :
    ∃ g' st', fixRelocationSection g st m = .ok (g', st') ∧ LoopInvariant f (m + 1) g' st' := by
  have hgm : g.sec m = f.sec m := hI.unchanged m (.inl le_rfl)
  by_cases hr : (f.sec m).header.type = SHT_RELA
  · obtain ⟨hl, hi⟩ := hrange hr
    have hout : linksOutside f (f.sec m) → g.sec (f.sec m).header.link.toNat =
        f.sec (f.sec m).header.link.toNat := fun h => hI.unchanged _ (.inr h)
    refine ⟨_, _, by simp [fixRelocationSection, hgm, hr, hI.length, Nat.not_le.mpr hl,
      Nat.not_le.mpr hi]; exact ⟨rfl, rfl⟩, ?_⟩
    have hm' : m < g.sections.length := hI.length ▸ hm
    refine ⟨hI.header, by simp [hI.length], fun i hi => ?_, fun i hi hri ho => ?_, fun hall => ?_⟩
    · have him : m ≠ i := by rintro rfl; exact hi.elim (by omega) (absurd hr)
      rw [sec_set _ _ hm', if_neg him, hI.unchanged i (hi.imp_left fun h => by omega)]
    · rw [sec_set _ _ hm']
      split_ifs with him
      · subst him
        rw [fixRelocationTable_fst, linkedCount, hout ho]
      · exact hI.lowered i (by omega) hri ho
    · have hrest := hI.state fun i hi => hall i (by omega)
      rw [fixRelocationTable_ok, hrest, hout (hall m (by omega) hr), ← linkedCount]
      constructor
      · rintro ⟨hprev, hcur⟩ i hi hri
        rcases Nat.lt_succ_iff_lt_or_eq.mp hi with hi | rfl
        · exact hprev i hi hri
        · exact hcur
      · intro h
        exact ⟨fun i hi => h i (by omega), h m (by omega) hr⟩
  · refine ⟨g, st, by simp [fixRelocationSection, hgm, hr], ?_⟩
    refine ⟨hI.header, hI.length, fun i hi => hI.unchanged i (hi.imp_left fun h => by omega),
      fun i hi hri ho => ?_, fun hall => ?_⟩
    · have him : i ≠ m := by rintro rfl; exact hr hri
      exact hI.lowered i (by omega) hri ho
    · rw [hI.state fun i hi => hall i (by omega)]
      refine forall_congr' fun i => ⟨fun h hi => ?_, fun h hi => h (by omega)⟩
      rcases Nat.lt_succ_iff_lt_or_eq.mp hi with hi | rfl
      · exact h hi
      · exact fun hri => absurd hri hr

/-- The section loop runs to the end without undefined behaviour when every relocation
section's `link` and `info` are in range, and ends in the invariant and in any property
`Q` of the state that every turn carries from section `m` to `m + 1`. -/
theorem relocationLoop_induct (Q : Nat → RelocState → Prop) (h0 : Q 0 ⟨[], true, []⟩)
    (hstep : ∀ m g st g' st', LoopInvariant f m g st → Q m st →
      fixRelocationSection g st m = .ok (g', st') → Q (m + 1) st')
    (hrange : ∀ s ∈ f.sections, s.header.type = SHT_RELA →
      s.header.link.toNat < f.sections.length ∧ s.header.info.toNat < f.sections.length) :
    ∃ g st, relocationLoop f = .ok (g, st) ∧ LoopInvariant f f.sections.length g st ∧
      Q f.sections.length st := by
  suffices h : ∀ m ≤ f.sections.length, ∃ g st, (List.range m).foldlM
      (fun acc j => fixRelocationSection acc.1 acc.2 j) (f, ⟨[], true, []⟩) = .ok (g, st) ∧
      LoopInvariant f m g st ∧ Q m st from h _ le_rfl
  intro m hm
  induction m with
  | zero => exact ⟨f, _, rfl, loopInvariant_zero f, h0⟩
  | succ m ih =>
    obtain ⟨g, st, hrun, hI, hQ⟩ := ih (by omega)
    have hmr : (f.sec m).header.type = SHT_RELA → (f.sec m).header.link.toNat < f.sections.length ∧
        (f.sec m).header.info.toNat < f.sections.length := by
      rw [ElfFile.sec_eq_getElem f (by omega)]
      exact hrange _ (List.getElem_mem _)
    obtain ⟨g', st', hs, hI'⟩ := loopInvariant_step f hI (by omega) hmr
    refine ⟨g', st', ?_, hI', hstep m g st g' st' hI hQ hs⟩
    rw [List.range_succ, List.foldlM_append, hrun]
    simpa using hs

theorem relocationLoop_eq_ok
    (hrange : ∀ s ∈ f.sections, s.header.type = SHT_RELA →
      s.header.link.toNat < f.sections.length ∧ s.header.info.toNat < f.sections.length) :
    ∃ g st, relocationLoop f = .ok (g, st) ∧ LoopInvariant f f.sections.length g st := by
  obtain ⟨g, st, h, hI, -⟩ := relocationLoop_induct f (fun _ _ => True) trivial
    (fun _ _ _ _ _ _ _ _ => trivial) hrange
  exact ⟨g, st, h, hI⟩

/-- What the loop may do to a section: keep its name and type, and change it only if it
is a relocation section. -/
def KeepsShape (s s' : Section) : Prop :=
  s'.name = s.name ∧ s'.header.type = s.header.type ∧ (s.header.type ≠ SHT_RELA → s' = s)

theorem KeepsShape.trans {s s' s'' : Section} (h : KeepsShape s s') (h' : KeepsShape s' s'') :
    KeepsShape s s'' :=
  ⟨h'.1.trans h.1, h'.2.1.trans h.2.1, fun hs => (h'.2.2 (h.2.1 ▸ hs)).trans (h.2.2 hs)⟩

/-- One turn of the section loop keeps the header, the number of sections, and the
shape of every section. -/
theorem fixRelocationSection_frame {g g' : ElfFile} {st st' : RelocState} {j : Nat}
    (h : fixRelocationSection g st j = .ok (g', st')) :
    g'.header = g.header ∧ g'.sections.length = g.sections.length ∧
      ∀ i, KeepsShape (g.sec i) (g'.sec i) := by
  simp only [fixRelocationSection] at h
  split_ifs at h with h1 h2 <;> cases h
  · exact ⟨rfl, rfl, fun _ => ⟨rfl, rfl, fun _ => rfl⟩⟩
  · have hj : j < g.sections.length := by
      by_contra hj
      rw [ElfFile.sec_of_le _ (by omega)] at h1
      exact h1 (by decide)
    refine ⟨rfl, by simp, fun i => ?_⟩
    rw [sec_set _ _ hj, fixRelocationTable_fst]
    split_ifs with hji
    · subst hji
      exact ⟨rfl, rfl, fun hne => absurd (not_not.mp h1) hne⟩
    · exact ⟨rfl, rfl, fun _ => rfl⟩

/-- Every run of the section loop keeps the header, the number of sections, and the
shape of each section. -/
theorem foldlM_fixRelocationSection_frame : ∀ (l : List Nat) (acc r : ElfFile × RelocState),
    l.foldlM (fun acc j => fixRelocationSection acc.1 acc.2 j) acc = .ok r →
    r.1.header = acc.1.header ∧ r.1.sections.length = acc.1.sections.length ∧
      ∀ i, KeepsShape (acc.1.sec i) (r.1.sec i)
  | [], acc, r, h => by
    cases h
    exact ⟨rfl, rfl, fun _ => ⟨rfl, rfl, fun _ => rfl⟩⟩
  | j :: l, acc, r, h => by
    rw [List.foldlM_cons] at h
    obtain ⟨acc', hstep, hrest⟩ := bind_eq_ok.mp h
    obtain ⟨h1, h2, h3⟩ := fixRelocationSection_frame hstep
    obtain ⟨h1', h2', h3'⟩ := foldlM_fixRelocationSection_frame l acc' r hrest
    exact ⟨h1'.trans h1, h2'.trans h2, fun i => (h3 i).trans (h3' i)⟩

/-- `fixRelocations` keeps the header, the number of sections, and every section's
name and type, and changes no section but relocation sections. -/
theorem fixRelocations_frame {f' : ElfFile} (h : fixRelocations f = .ok f') :
    f'.header = f.header ∧ f'.sections.length = f.sections.length ∧
      ∀ i, KeepsShape (f.sec i) (f'.sec i) := by
  obtain ⟨r, hr, h⟩ := bind_eq_ok.mp h
  split_ifs at h
  cases h
  exact foldlM_fixRelocationSection_frame _ _ _ hr

/-- One turn of the section loop keeps every view of a section that the record loop of a
relocation table keeps. -/
theorem fixRelocationSection_proj {β : Type} (p : Section → β)
    (hp : ∀ symbols st s, s.header.type = SHT_RELA → p (fixRelocationTable symbols st s).1 = p s)
    {g g' : ElfFile} {st st' : RelocState} {j : Nat}
    (h : fixRelocationSection g st j = .ok (g', st')) (i : Nat) : p (g'.sec i) = p (g.sec i) := by
  simp only [fixRelocationSection] at h
  split_ifs at h with h1 h2 <;> cases h
  · rfl
  · have hj : j < g.sections.length := by
      by_contra hj
      rw [ElfFile.sec_of_le _ (by omega)] at h1
      exact h1 (by decide)
    rw [sec_set _ _ hj]
    split_ifs with hji
    · subst hji
      exact hp _ _ _ (not_not.mp h1)
    · rfl

theorem foldlM_fixRelocationSection_proj {β : Type} (p : Section → β)
    (hp : ∀ symbols st s, s.header.type = SHT_RELA → p (fixRelocationTable symbols st s).1 = p s) :
    ∀ (l : List Nat) (acc r : ElfFile × RelocState),
      l.foldlM (fun acc j => fixRelocationSection acc.1 acc.2 j) acc = .ok r →
      ∀ i, p (r.1.sec i) = p (acc.1.sec i)
  | [], acc, r, h => by
    cases h
    exact fun _ => rfl
  | j :: l, acc, r, h => by
    rw [List.foldlM_cons] at h
    obtain ⟨acc', hstep, hrest⟩ := bind_eq_ok.mp h
    exact fun i => (foldlM_fixRelocationSection_proj p hp l acc' r hrest i).trans
      (fixRelocationSection_proj p hp hstep i)

/-- `fixRelocations` keeps every view of a section that the record loop keeps. -/
theorem fixRelocations_proj {β : Type} (p : Section → β)
    (hp : ∀ symbols st s, s.header.type = SHT_RELA → p (fixRelocationTable symbols st s).1 = p s)
    {f' : ElfFile} (h : fixRelocations f = .ok f') (i : Nat) : p (f'.sec i) = p (f.sec i) := by
  obtain ⟨r, hr, h⟩ := bind_eq_ok.mp h
  split_ifs at h
  cases h
  exact foldlM_fixRelocationSection_proj p hp _ _ _ hr i

/-- Without relocation sections, `fixRelocations` returns the file unchanged. -/
theorem fixRelocations_of_no_rela (h : ∀ s ∈ f.sections, s.header.type ≠ SHT_RELA) :
    fixRelocations f = .ok f := by
  have hsec : ∀ j, (f.sec j).header.type ≠ SHT_RELA := fun j => by
    by_cases hj : j < f.sections.length
    · rw [ElfFile.sec_eq_getElem _ hj]
      exact h _ (List.getElem_mem hj)
    · rw [ElfFile.sec_of_le _ (by omega)]
      decide
  have hloop : ∀ (l : List Nat) st, l.foldlM (fun acc j => fixRelocationSection acc.1 acc.2 j)
      (f, st) = .ok (f, st) := by
    intro l
    induction l with
    | nil => intro; rfl
    | cons j l ih =>
      intro st
      rw [List.foldlM_cons]
      simp only [fixRelocationSection, hsec j, ne_eq, not_false_eq_true, if_true]
      exact ih st
  simp only [fixRelocations, relocationLoop, hloop]
  rfl

end SectionLoop

/-- Given that every relocation section's `link` and `info` are in range, as they are
after reordering: the section loop of `fixRelocations` runs to its end; each relocation
section whose linked table is not itself a relocation section keeps its name, gets its
flags cleared, and holds its records rewritten in place (an `R_PPC_REL32` whose symbol
index is below the linked table's symbol count becoming `GHS_REL16_HI` with the same
offset and addend), then its trailing bytes, then, in the order of those records, one
`GHS_REL16_LO` record at offset + 2 with addend + 2 for each; every other section is
unchanged; the pass returns the loop's file or fails with the diagnostics it printed;
and when no relocation section links to a relocation section, it succeeds exactly when
every record of every relocation section is of a supported type or is an `R_PPC_REL32`
whose symbol index is below the linked table's symbol count. -/
theorem fixRelocations_lowers_rel32 (f : ElfFile)
    (hrange : ∀ s ∈ f.sections, s.header.type = SHT_RELA →
      s.header.link.toNat < f.sections.length ∧ s.header.info.toNat < f.sections.length) :
    ∃ f' st, relocationLoop f = .ok (f', st) ∧
      (fixRelocations f = .ok f' ∨ fixRelocations f = .error (.failed st.printed)) ∧
      f'.header = f.header ∧ f'.sections.length = f.sections.length ∧
      (∀ i, (f.sec i).header.type = SHT_RELA →
        (f.sec (f.sec i).header.link.toNat).header.type ≠ SHT_RELA →
        (f'.sec i).header = { (f.sec i).header with flags := 0 } ∧
        (f'.sec i).name = (f.sec i).name ∧
        (f'.sec i).data =
          Rela.layout.encodeAll ((Rela.layout.records (f.sec i).data).map fun (r : Rela) =>
            if r.type = R_PPC_REL32 ∧ r.symbolIndex.toNat <
                Symbol.layout.count (f.sec (f.sec i).header.link.toNat).data then
              ({ offset := r.offset, info := (r.symbolIndex <<< 8) ||| R_PPC_GHS_REL16_HI,
                 addend := r.addend } : Rela)
            else r) ++
          Rela.layout.trailing (f.sec i).data ++
          Rela.layout.encodeAll (((Rela.layout.records (f.sec i).data).filter fun (r : Rela) =>
              r.type = R_PPC_REL32 ∧ r.symbolIndex.toNat <
                Symbol.layout.count (f.sec (f.sec i).header.link.toNat).data).map fun (r : Rela) =>
            ({ offset := r.offset + 2, info := (r.symbolIndex <<< 8) ||| R_PPC_GHS_REL16_LO,
               addend := r.addend + 2 } : Rela))) ∧
      (∀ i, (f.sec i).header.type ≠ SHT_RELA → f'.sec i = f.sec i) ∧
      ((∀ s ∈ f.sections, s.header.type = SHT_RELA →
          (f.sec s.header.link.toNat).header.type ≠ SHT_RELA) →
        ((∃ f'', fixRelocations f = .ok f'') ↔ ∀ s ∈ f.sections, s.header.type = SHT_RELA →
          ∀ r ∈ Rela.layout.records s.data, r.type ∈ supportedTypes ∨
            r.type = R_PPC_REL32 ∧ r.symbolIndex.toNat <
              Symbol.layout.count (f.sec s.header.link.toNat).data)) := by
  obtain ⟨g, st, hrun, hI⟩ := relocationLoop_eq_ok f hrange
  have hfix : fixRelocations f = if st.result && st.unsupportedTypes.isEmpty then .ok g
      else .error (.failed st.printed) := by
    rw [fixRelocations, hrun]
    rfl
  refine ⟨g, st, hrun, by split_ifs at hfix <;> simp [hfix], hI.header, hI.length,
    fun i hri ho => ?_, fun i hri => hI.unchanged i (.inr hri), fun hall => ?_⟩
  · have hi : i < f.sections.length := by
      by_contra hi
      rw [ElfFile.sec_of_le f (by omega)] at hri
      exact absurd hri (by decide)
    rw [hI.lowered i hi hri ho]
    refine ⟨rfl, rfl, ?_⟩
    rw [loweredSection, linkedCount, funext (lowerRecord_eq _), funext (lowersTo_eq _)]
    rfl
  · have hsecs : ∀ i < f.sections.length, f.sec i ∈ f.sections := fun i hi => by
      rw [ElfFile.sec_eq_getElem f hi]
      exact List.getElem_mem _
    have hst := hI.state fun i hi hri => hall _ (hsecs i hi) hri
    have hok : (∃ f'', fixRelocations f = .ok f'') ↔
        st.result = true ∧ st.unsupportedTypes = [] := by
      rw [hfix, ← List.isEmpty_iff, ← Bool.and_eq_true]
      split_ifs with h
      · exact ⟨fun _ => h, fun _ => ⟨g, rfl⟩⟩
      · exact ⟨fun ⟨_, h'⟩ => (nomatch h'), fun h' => absurd h' h⟩
    have hacc : ∀ n r, acceptsRelocation n r = true ↔
        r.type ∈ supportedTypes ∨ r.type = R_PPC_REL32 ∧ r.symbolIndex.toNat < n := fun n r => by
      simp [acceptsRelocation, lowersTo_eq]
    simp only [hok, hst, hacc, linkedCount]
    constructor
    · intro h s hs hrs
      obtain ⟨i, hi, rfl⟩ := List.getElem_of_mem hs
      simpa [ElfFile.sec_eq_getElem f hi] using h i hi (by rwa [ElfFile.sec_eq_getElem f hi])
    · exact fun h i hi hri => h _ (hsecs i hi) hri

/-- A symbol table of six symbols and one relocation section with an `R_PPC_REL32` record
against symbol 5. -/
def rel32File : ElfFile :=
  ⟨default, [default,
    ⟨{ (default : SectionHeader) with type := SHT_SYMTAB }, ascii ".symtab", List.replicate 96 0⟩,
    ⟨{ (default : SectionHeader) with type := SHT_RELA, link := 1 }, ascii ".rela.text",
      Rela.layout.encode ⟨0x20000010, ((5 : UInt32) <<< 8) ||| R_PPC_REL32, 0⟩⟩]⟩

/-- The record becomes a `GHS_REL16_HI` record and a `GHS_REL16_LO` record two bytes on. -/
theorem fixRelocations_lowers_rel32_oneRecord :
    (∀ s ∈ rel32File.sections, s.header.type = SHT_RELA →
      s.header.link.toNat < rel32File.sections.length ∧
        s.header.info.toNat < rel32File.sections.length) ∧
      ∃ f', fixRelocations rel32File = .ok f' ∧ (f'.sec 2).header.flags = 0 ∧
        (f'.sec 2).data = Rela.layout.encodeAll
          [⟨0x20000010, ((5 : UInt32) <<< 8) ||| R_PPC_GHS_REL16_HI, 0⟩,
           ⟨0x20000012, ((5 : UInt32) <<< 8) ||| R_PPC_GHS_REL16_LO, 2⟩] := by
  have hrange : ∀ s ∈ rel32File.sections, s.header.type = SHT_RELA →
      s.header.link.toNat < rel32File.sections.length ∧
        s.header.info.toNat < rel32File.sections.length := by decide
  obtain ⟨f', st, -, hfix, -, -, hlow, -, hiff⟩ := fixRelocations_lowers_rel32 rel32File hrange
  obtain ⟨hhdr, -, hdata⟩ := hlow 2 (by decide) (by decide)
  refine ⟨hrange, f', hfix.resolve_right fun he => ?_, by rw [hhdr], by rw [hdata]; decide⟩
  obtain ⟨f'', hok⟩ := (hiff (by decide)).mpr (by decide)
  rw [he] at hok
  cases hok

/-- The relocation type a diagnostic reports as unsupported. -/
def unsupportedType : Diagnostic → Option UInt32
  | .unsupportedRelocation type => some type
  | _ => none

/-- A state whose `unsupportedTypes` lists no type twice, and whose printed diagnostics
report exactly those types as unsupported, in that order. -/
structure ReportsOnce (st : RelocState) : Prop where
  nodup : st.unsupportedTypes.Nodup
  printed : st.printed.filterMap unsupportedType = st.unsupportedTypes

/-- A type that `fixRelocation` neither keeps nor lowers. -/
def Unsupported (t : UInt32) : Prop := t ∉ supportedTypes ∧ t ≠ R_PPC_REL32

section Reports

variable (symbols : List UInt8)

/-- One record keeps the report, and adds its type to it when the type is unsupported. -/
theorem fixRelocation_reports (l : RelaLoop) (r : Rela) (h : ReportsOnce l.state) :
    ReportsOnce (fixRelocation symbols l r).state ∧
      ∀ t, t ∈ (fixRelocation symbols l r).state.unsupportedTypes ↔
        t ∈ l.state.unsupportedTypes ∨ r.type = t ∧ Unsupported t := by
  have hsame : ¬Unsupported r.type → ∀ t, t ∈ l.state.unsupportedTypes ↔
      t ∈ l.state.unsupportedTypes ∨ r.type = t ∧ Unsupported t := fun hu t =>
    ⟨.inl, by rintro (ht | ⟨rfl, hu'⟩); exacts [ht, absurd hu' hu]⟩
  unfold fixRelocation
  by_cases h1 : r.type ∈ supportedTypes
  · rw [if_pos h1]
    exact ⟨h, hsame fun hu => hu.1 h1⟩
  by_cases h2 : r.type = R_PPC_REL32
  · rw [if_neg h1, if_pos h2]
    split
    · exact ⟨⟨h.nodup, by simp [List.filterMap_append, unsupportedType, h.printed]⟩,
        hsame fun hu => hu.2 h2⟩
    · exact ⟨h, hsame fun hu => hu.2 h2⟩
  · rw [if_neg h1, if_neg h2]
    split_ifs with h3
    · exact ⟨h, fun t => ⟨.inl, by rintro (ht | ⟨rfl, -⟩); exacts [ht, h3]⟩⟩
    · refine ⟨⟨?_, by simp [List.filterMap_append, unsupportedType, h.printed]⟩, fun t => ?_⟩
      · exact List.nodup_append.mpr ⟨h.nodup, List.nodup_singleton _, by simpa using h3⟩
      · simp only [List.mem_append, List.mem_singleton]
        constructor
        · rintro (ht | rfl)
          exacts [.inl ht, .inr ⟨rfl, h1, h2⟩]
        · rintro (ht | ⟨rfl, -⟩)
          exacts [.inl ht, .inr rfl]

/-- The record loop over a table keeps the report and adds the table's unsupported
types to it. -/
theorem foldl_fixRelocation_reports (rs : List Rela) (l : RelaLoop) (h : ReportsOnce l.state) :
    ReportsOnce (rs.foldl (fixRelocation symbols) l).state ∧
      ∀ t, t ∈ (rs.foldl (fixRelocation symbols) l).state.unsupportedTypes ↔
        t ∈ l.state.unsupportedTypes ∨ ∃ r ∈ rs, r.type = t ∧ Unsupported t := by
  induction rs generalizing l with
  | nil => exact ⟨h, fun t => by simp⟩
  | cons r rs ih =>
    obtain ⟨h1, h2⟩ := fixRelocation_reports symbols l r h
    obtain ⟨i1, i2⟩ := ih _ h1
    refine ⟨i1, fun t => ?_⟩
    rw [List.foldl_cons, i2, h2]
    simp only [List.mem_cons, exists_eq_or_imp, or_assoc]

end Reports

/-- The state after the turns on sections `0 .. m - 1` reports once each unsupported type
of their relocation tables' records. -/
def Reported (f : ElfFile) (m : Nat) (st : RelocState) : Prop :=
  ReportsOnce st ∧ ∀ t, t ∈ st.unsupportedTypes ↔ ∃ i < m, (f.sec i).header.type = SHT_RELA ∧
    ∃ r ∈ Rela.layout.records (f.sec i).data, r.type = t ∧ Unsupported t

theorem reported_step {f g g' : ElfFile} {m : Nat} {st st' : RelocState}
    (hI : LoopInvariant f m g st) (h : Reported f m st)
    (hs : fixRelocationSection g st m = .ok (g', st')) : Reported f (m + 1) st' := by
  have hgm : g.sec m = f.sec m := hI.unchanged m (.inl le_rfl)
  simp only [fixRelocationSection] at hs
  split_ifs at hs with h1 h2 <;> cases hs
  · refine ⟨h.1, fun t => (h.2 t).trans ?_⟩
    rw [hgm] at h1
    rw [Nat.exists_lt_succ]
    exact ⟨.inl, by rintro (ht | ⟨hr, -⟩); exacts [ht, absurd hr h1]⟩
  · obtain ⟨r1, r2⟩ := foldl_fixRelocation_reports _ (Rela.layout.records (g.sec m).data)
      ⟨[], [], st⟩ h.1
    refine ⟨r1, fun t => (r2 t).trans ?_⟩
    rw [hgm] at h1 ⊢
    rw [h.2 t, Nat.exists_lt_succ]
    exact or_congr_right ⟨fun hr => ⟨not_not.mp h1, hr⟩, And.right⟩

/-- Given that every relocation section's `link` and `info` are in range: the types
`fixRelocations` reports as unsupported are, each once, exactly the unsupported types of
the records of the relocation sections; the pass succeeds only when there are none, and
otherwise fails with diagnostics that report exactly these types, in order. -/
theorem fixRelocations_reports_each_type_once (f : ElfFile)
    (hrange : ∀ s ∈ f.sections, s.header.type = SHT_RELA →
      s.header.link.toNat < f.sections.length ∧ s.header.info.toNat < f.sections.length) :
    ∃ types : List UInt32, types.Nodup ∧
      (∀ t, t ∈ types ↔ ∃ s ∈ f.sections, s.header.type = SHT_RELA ∧
        ∃ r ∈ Rela.layout.records s.data, r.type = t ∧ Unsupported t) ∧
      ((types = [] ∧ ∃ f', fixRelocations f = .ok f') ∨
        ∃ msgs, fixRelocations f = .error (.failed msgs) ∧
          msgs.filterMap unsupportedType = types) := by
  obtain ⟨g, st, hrun, -, hR, hmem⟩ := relocationLoop_induct f (Reported f)
    ⟨⟨List.nodup_nil, rfl⟩, fun t => by simp⟩ (fun _ _ _ _ _ hI h hs => reported_step hI h hs)
    hrange
  refine ⟨st.unsupportedTypes, hR.nodup, fun t => (hmem t).trans ⟨?_, ?_⟩, ?_⟩
  · rintro ⟨i, hi, hx⟩
    exact ⟨f.sec i, by rw [ElfFile.sec_eq_getElem f hi]; exact List.getElem_mem _, hx⟩
  · rintro ⟨s, hs, hx⟩
    obtain ⟨i, hi, rfl⟩ := List.getElem_of_mem hs
    exact ⟨i, hi, by rwa [ElfFile.sec_eq_getElem f hi]⟩
  · have hfix : fixRelocations f = if st.result && st.unsupportedTypes.isEmpty then .ok g
        else .error (.failed st.printed) := by
      rw [fixRelocations, hrun]
      rfl
    split_ifs at hfix with hok
    · simp only [Bool.and_eq_true, List.isEmpty_iff] at hok
      exact .inl ⟨hok.2, g, hfix⟩
    · exact .inr ⟨_, hfix, hR.printed⟩

/-- A relocation table of two records of type 200, which the loader does not support. -/
def twoUnsupported : ElfFile :=
  ⟨default, [default,
    ⟨{ (default : SectionHeader) with type := SHT_SYMTAB }, ascii ".symtab", []⟩,
    ⟨{ (default : SectionHeader) with type := SHT_RELA, link := 1 }, ascii ".rela.text",
      Rela.layout.encode ⟨0, 200, 0⟩ ++ Rela.layout.encode ⟨4, 200, 0⟩⟩]⟩

theorem fixRelocations_reports_each_type_once_twoUnsupported :
    (∀ s ∈ twoUnsupported.sections, s.header.type = SHT_RELA →
      s.header.link.toNat < twoUnsupported.sections.length ∧
        s.header.info.toNat < twoUnsupported.sections.length) ∧
    ∃ types : List UInt32, types.Nodup ∧
      (∀ t, t ∈ types ↔ ∃ s ∈ twoUnsupported.sections, s.header.type = SHT_RELA ∧
        ∃ r ∈ Rela.layout.records s.data, r.type = t ∧ Unsupported t) ∧
      ((types = [] ∧ ∃ f', fixRelocations twoUnsupported = .ok f') ∨
        ∃ msgs, fixRelocations twoUnsupported = .error (.failed msgs) ∧
          msgs.filterMap unsupportedType = types) :=
  ⟨by decide, fixRelocations_reports_each_type_once _ (by decide)⟩

/-- Two records of one unsupported type, one report. -/
example : fixRelocations twoUnsupported = .error (.failed [.unsupportedRelocation 200]) := rfl

end Elf2Rpl
