import Elf2Rpl.Tool.ReadElf
import Mathlib.Data.List.Nodup
import Mathlib.Data.List.Perm.Subperm
import Mathlib.Data.List.Sort
import Mathlib.Data.List.GetD

/-! # P3: reordering the sections

`reorderSectionIndex` lists the new order as `sectionMap` (new index ↦ old
index): index 0, then eight loops over the sections, one per bucket of the
canonical order. It fails unless the list is as long as the section list, moves
the sections into the new order, builds the inverse `mapOldToNew` and rewrites
every index-valued field through it. This module models the pass, its buckets
and the inverse map.
-/

namespace Elf2Rpl

open elf

/-- Executable `PROGBITS`. -/
def isCode (h : SectionHeader) : Bool :=
  h.type == SHT_PROGBITS && (h.flags &&& SHF_EXECINSTR) != 0

def isExports (h : SectionHeader) : Bool := h.type == SHT_RPL_EXPORTS

/-- `PROGBITS` neither executable nor writable. -/
def isReadOnlyData (h : SectionHeader) : Bool :=
  h.type == SHT_PROGBITS && (h.flags &&& SHF_EXECINSTR) == 0 && (h.flags &&& SHF_WRITE) == 0

/-- Writable, non-executable `PROGBITS`. -/
def isWritableData (h : SectionHeader) : Bool :=
  h.type == SHT_PROGBITS && (h.flags &&& SHF_EXECINSTR) == 0 && (h.flags &&& SHF_WRITE) != 0

def isBss (h : SectionHeader) : Bool := h.type == SHT_NOBITS

def isRelocation (h : SectionHeader) : Bool := h.type == SHT_REL || h.type == SHT_RELA

def isImports (h : SectionHeader) : Bool := h.type == SHT_RPL_IMPORTS

def isSymbolTable (h : SectionHeader) : Bool := h.type == SHT_SYMTAB || h.type == SHT_STRTAB

/-- The conditions of the eight loops that follow index 0, in order. -/
def buckets : List (SectionHeader → Bool) :=
  [isCode, isExports, isReadOnlyData, isWritableData, isBss, isRelocation, isImports,
    isSymbolTable]

/-- A section one of the eight loops picks. -/
def bucketed (h : SectionHeader) : Bool := buckets.any (· h)

/-- The place of a section in the canonical order: its bucket's position after the
NULL section, and 0 for a section no loop picks. -/
def rank (h : SectionHeader) : Nat := ((buckets.findIdx? (· h)).map (· + 1)).getD 0

theorem buckets_disjoint : buckets.Pairwise fun p q => ∀ h, ¬(p h ∧ q h) := by
  simp only [buckets, List.pairwise_cons, List.mem_cons, List.mem_singleton,
    forall_eq_or_imp, forall_eq, List.not_mem_nil, false_imp_iff, implies_true,
    List.Pairwise.nil, and_true]
  refine ⟨⟨?_, ?_, ?_, ?_, ?_, ?_, ?_⟩, ⟨?_, ?_, ?_, ?_, ?_, ?_⟩, ⟨?_, ?_, ?_, ?_, ?_⟩,
    ⟨?_, ?_, ?_, ?_⟩, ⟨?_, ?_, ?_⟩, ⟨?_, ?_⟩, ?_⟩ <;> intro h <;>
  simp only [isCode, isExports, isReadOnlyData, isWritableData, isBss, isRelocation,
    isImports, isSymbolTable, Bool.and_eq_true, Bool.or_eq_true, beq_iff_eq, bne_iff_ne] <;>
  rintro ⟨h1, h2⟩ <;> (try rcases h1 with h1 | h1) <;>
  simp_all [SHT_PROGBITS, SHT_RPL_EXPORTS, SHT_NOBITS, SHT_REL, SHT_RELA, SHT_RPL_IMPORTS,
    SHT_SYMTAB, SHT_STRTAB]

theorem rank_eq_succ_iff {h : SectionHeader} {k : Nat} (hk : k < buckets.length) :
    rank h = k + 1 ↔ buckets[k] h = true := by
  have hfind : buckets.findIdx? (· h) = some k ↔ buckets[k] h = true := by
    rw [List.findIdx?_eq_some_iff_getElem]
    refine ⟨fun ⟨_, hk', _⟩ => hk', fun hk' => ⟨hk, hk', fun j hj hj' => ?_⟩⟩
    exact List.pairwise_iff_getElem.mp buckets_disjoint j k _ hk hj h ⟨hj', hk'⟩
  rw [← hfind, rank]
  cases buckets.findIdx? (· h) <;> simp

theorem rank_eq_zero_iff {h : SectionHeader} : rank h = 0 ↔ bucketed h = false := by
  rw [rank, bucketed, Bool.eq_false_iff, ne_eq, List.any_eq_true]
  cases hf : buckets.findIdx? (· h) with
  | none =>
    simp only [Option.map_none', Option.getD_none, true_iff, not_exists, not_and]
    exact fun p hp hph => by simpa [hph] using List.findIdx?_eq_none_iff.mp hf p hp
  | some k =>
    simp only [Option.map_some', Option.getD_some, Nat.add_one_ne_zero, false_iff, not_not]
    obtain ⟨hk, hkh, -⟩ := List.findIdx?_eq_some_iff_getElem.mp hf
    exact ⟨_, List.getElem_mem hk, hkh⟩

/-- The canonical order written out: executable `PROGBITS`, `RPL_EXPORTS`, read-only
`PROGBITS`, writable `PROGBITS`, `NOBITS`, `REL` and `RELA`, `RPL_IMPORTS`, then `SYMTAB` and
`STRTAB`, after the `NULL` section and any section no loop picks, which rank 0. -/
theorem rank_eq_canonical_order (h : SectionHeader) : rank h =
    if h.type = SHT_PROGBITS ∧ h.flags &&& SHF_EXECINSTR ≠ 0 then 1
    else if h.type = SHT_RPL_EXPORTS then 2
    else if h.type = SHT_PROGBITS ∧ h.flags &&& SHF_WRITE = 0 then 3
    else if h.type = SHT_PROGBITS then 4
    else if h.type = SHT_NOBITS then 5
    else if h.type = SHT_REL ∨ h.type = SHT_RELA then 6
    else if h.type = SHT_RPL_IMPORTS then 7
    else if h.type = SHT_SYMTAB ∨ h.type = SHT_STRTAB then 8
    else 0 := by
  simp only [rank, buckets, List.findIdx?_cons, List.findIdx?_nil, isCode, isExports,
    isReadOnlyData, isWritableData, isBss, isRelocation, isImports, isSymbolTable,
    Bool.and_eq_true, Bool.or_eq_true, beq_iff_eq, bne_iff_ne]
  by_cases hp : h.type = SHT_PROGBITS
  · have hx : SHT_PROGBITS ≠ SHT_RPL_EXPORTS := by decide
    by_cases he : h.flags &&& SHF_EXECINSTR = 0 <;> by_cases hw : h.flags &&& SHF_WRITE = 0 <;>
      simp [hp, he, hw, hx]
  · simp only [hp, false_and, if_false]
    split_ifs <;> rfl

/-- The types the eight loops pick. -/
def bucketTypes : List UInt32 :=
  [SHT_PROGBITS, SHT_RPL_EXPORTS, SHT_NOBITS, SHT_REL, SHT_RELA, SHT_RPL_IMPORTS, SHT_SYMTAB,
    SHT_STRTAB]

/-- A section is picked by a loop exactly when its type is one of the bucket types:
the three `PROGBITS` loops together take every `PROGBITS` section. -/
theorem bucketed_iff_type {h : SectionHeader} : bucketed h = true ↔ h.type ∈ bucketTypes := by
  simp only [bucketed, buckets, bucketTypes, List.any_cons, List.any_nil, isCode, isExports,
    isReadOnlyData, isWritableData, isBss, isRelocation, isImports, isSymbolTable,
    Bool.or_false, Bool.or_eq_true, Bool.and_eq_true, beq_iff_eq, bne_iff_ne, List.mem_cons,
    List.mem_singleton, List.not_mem_nil, or_false]
  by_cases hp : h.type = SHT_PROGBITS
  · simp only [hp, true_and, true_or, iff_true]
    by_cases he : h.flags &&& SHF_EXECINSTR = 0 <;> by_cases hw : h.flags &&& SHF_WRITE = 0 <;>
      simp [he, hw]
  · simp [hp, or_assoc]

section StableSort

variable {α : Type} (key : α → Nat)

/-- Two lists sorted by `key` that list the elements of every key in the same order
are equal. -/
theorem eq_of_pairwise_of_filter_eq : ∀ {l₁ l₂ : List α},
    l₁.Pairwise (key · ≤ key ·) → l₂.Pairwise (key · ≤ key ·) →
    (∀ r, l₁.filter (key · == r) = l₂.filter (key · == r)) → l₁ = l₂
  | [], [], _, _, _ => rfl
  | [], b :: l₂, _, _, h => by simpa using h (key b)
  | a :: l₁, [], _, _, h => by simpa using h (key a)
  | a :: l₁, b :: l₂, h₁, h₂, h => by
    rw [List.pairwise_cons] at h₁ h₂
    have head_le : ∀ {x y : α} {l : List α}, (∀ z ∈ l, key y ≤ key z) →
        x ∈ (y :: l).filter (key · == key x) → key y ≤ key x := fun hl hx => by
      simp only [List.mem_filter, List.mem_cons] at hx
      rcases hx.1 with rfl | hx
      · exact le_rfl
      · exact hl _ hx
    have hkey : key a = key b :=
      Nat.le_antisymm (head_le h₁.1 (by rw [h]; simp)) (head_le h₂.1 (by rw [← h]; simp))
    have heq : a = b := by
      have := h (key a)
      simp only [List.filter_cons, beq_self_eq_true, if_true, hkey] at this
      exact (List.cons.inj this).1
    subst heq
    congr 1
    refine eq_of_pairwise_of_filter_eq h₁.2 h₂.2 fun r => ?_
    have := h r
    simp only [List.filter_cons] at this
    split_ifs at this
    · exact (List.cons.inj this).2
    · exact this

/-- `List.mergeSort` is stable: it keeps the elements of each key in their order. -/
theorem filter_mergeSort (l : List α) (r : Nat) :
    (l.mergeSort fun a b => key a ≤ key b).filter (key · == r) = l.filter (key · == r) := by
  have hc : (l.filter (key · == r)).Pairwise fun a b => decide (key a ≤ key b) :=
    List.Pairwise.imp_of_mem (R := fun a b => key a = key b)
      (by intro a b ha hb _; simp_all [List.mem_filter])
      (List.pairwise_of_forall_mem_list fun a ha b hb => by simp_all [List.mem_filter])
  have hsub := List.sublist_mergeSort (fun a b c hab hbc => by simp_all; omega)
    (fun a b => by simp; omega) hc (List.filter_sublist l)
  have hsub' := hsub.filter (key · == r)
  simp only [List.filter_filter, Bool.and_self] at hsub'
  exact (hsub'.eq_of_length ((List.mergeSort_perm l _).filter _).length_eq.symm).symm

private theorem flatMap_range_ite (K r : Nat) (x : List α) :
    ((List.range K).flatMap fun r' => if r' = r then x else []) = if r < K then x else [] := by
  induction K with
  | zero => simp
  | succ K ih =>
    rw [List.range_succ, List.flatMap_append, ih, List.flatMap_singleton]
    by_cases h : r < K
    · simp [h, show r < K + 1 by omega, show K ≠ r by omega]
    · by_cases h' : K = r <;> simp [h, h']
      omega

/-- Listing the elements key by key, for keys below `K`, is the stable sort by key. -/
theorem flatMap_filter_eq_mergeSort (l : List α) (K : Nat) (hK : ∀ a ∈ l, key a < K) :
    ((List.range K).flatMap fun r => l.filter (key · == r)) =
      l.mergeSort fun a b => key a ≤ key b := by
  apply eq_of_pairwise_of_filter_eq key
  · refine List.pairwise_flatMap.mpr ⟨fun r _ => ?_, ?_⟩
    · exact List.pairwise_of_forall_mem_list fun a ha b hb => by
        simp only [List.mem_filter, beq_iff_eq] at ha hb; omega
    · exact (List.pairwise_lt_range K).imp fun hrr' a ha b hb => by
        simp only [List.mem_filter, beq_iff_eq] at ha hb; omega
  · exact (List.sorted_mergeSort (fun a b c hab hbc => by simp_all; omega)
      (fun a b => by simp; omega) l).imp (by simp)
  · intro r
    rw [filter_mergeSort, List.filter_flatMap]
    have hcongr : ∀ r' ∈ List.range K, (l.filter (key · == r')).filter (key · == r) =
        if r' = r then l.filter (key · == r) else [] := by
      intro r' _
      split_ifs with h
      · subst h; simp [List.filter_filter]
      · simp only [List.filter_filter]
        exact List.filter_eq_nil_iff.mpr fun a _ => by simp; omega
    rw [List.flatMap_congr hcongr, flatMap_range_ite]
    split_ifs with h
    · rfl
    · exact (List.filter_eq_nil_iff.mpr fun a ha => by simp; have := hK a ha; omega).symm

end StableSort

/-- One loop of `reorderSectionIndex`: the indices of the sections it picks, in order. -/
def indicesWhere (f : ElfFile) (p : SectionHeader → Bool) : List Nat :=
  (List.range f.sections.length).filter fun i => p (f.sections.getD i default).header

/-- `sectionMap`: new index ↦ old index. -/
def sectionMap (f : ElfFile) : List Nat := 0 :: buckets.flatMap (indicesWhere f)

/-- Move the sections into the order `sectionMap` lists. -/
def applyOrder (σ : List Nat) (f : ElfFile) : ElfFile :=
  { f with sections := σ.map fun i => f.sections.getD i default }

/-- `mapOldToNew`: `n` zeros, then entry `sectionMap[i]` set to `i` cast to `uint16_t`. -/
def mapOldToNew (σ : List Nat) (n : Nat) : List UInt16 :=
  (List.range σ.length).foldl (fun m i => m.set (σ.getD i 0) (UInt16.ofNat i)) (List.replicate n 0)

section SectionMap

variable (f : ElfFile)

/-- Whether the loops pick section `i`. -/
def bucketedAt (i : Nat) : Bool := bucketed (f.sections.getD i default).header

theorem mem_indicesWhere {p : SectionHeader → Bool} {i : Nat} :
    i ∈ indicesWhere f p ↔ i < f.sections.length ∧ p (f.sections.getD i default).header := by
  simp [indicesWhere]

theorem nodup_indicesWhere (p : SectionHeader → Bool) : (indicesWhere f p).Nodup :=
  (List.nodup_range _).filter _

/-- The indices the eight loops list after index 0. -/
def bucketIndices : List Nat := buckets.flatMap (indicesWhere f)

theorem sectionMap_eq : sectionMap f = 0 :: bucketIndices f := rfl

theorem mem_bucketIndices {i : Nat} :
    i ∈ bucketIndices f ↔ i < f.sections.length ∧ bucketedAt f i := by
  simp only [bucketIndices, List.mem_flatMap, mem_indicesWhere, bucketedAt, bucketed,
    List.any_eq_true]
  constructor
  · rintro ⟨p, hp, hi, h⟩
    exact ⟨hi, p, hp, h⟩
  · rintro ⟨hi, p, hp, h⟩
    exact ⟨p, hp, hi, h⟩

/-- No section is picked by two loops. -/
theorem nodup_bucketIndices : (bucketIndices f).Nodup := by
  refine List.nodup_flatMap.mpr ⟨fun p _ => nodup_indicesWhere f p, ?_⟩
  refine buckets_disjoint.imp fun {p q} hpq => ?_
  intro i hp hq
  exact hpq _ ⟨((mem_indicesWhere f).mp hp).2, ((mem_indicesWhere f).mp hq).2⟩

theorem bucketIndices_perm :
    (bucketIndices f).Perm ((List.range f.sections.length).filter (bucketedAt f)) := by
  refine (List.perm_ext_iff_of_nodup (nodup_bucketIndices f)
    ((List.nodup_range _).filter _)).mpr fun i => ?_
  simp [mem_bucketIndices]

@[simp] theorem length_sectionMap :
    (sectionMap f).length = ((List.range f.sections.length).filter (bucketedAt f)).length + 1 := by
  rw [sectionMap_eq, List.length_cons, (bucketIndices_perm f).length_eq]

theorem lt_of_mem_bucketIndices {i : Nat} (h : i ∈ bucketIndices f) : i < f.sections.length :=
  ((mem_bucketIndices f).mp h).1

/-- `sectionMap` is a permutation of the section indices exactly when section 0 is
picked by no loop and every other section by one. -/
theorem sectionMap_perm_iff :
    (sectionMap f).Perm (List.range f.sections.length) ↔
      0 < f.sections.length ∧ bucketedAt f 0 = false ∧
        ∀ i, 0 < i → i < f.sections.length → bucketedAt f i := by
  have hnd := nodup_bucketIndices f
  constructor
  · intro hp
    have hnd0 : (sectionMap f).Nodup := hp.nodup_iff.mpr (List.nodup_range _)
    rw [sectionMap_eq, List.nodup_cons] at hnd0
    have h0 : 0 ∈ sectionMap f := List.mem_cons_self _ _
    refine ⟨List.mem_range.mp (hp.subset h0), ?_, fun i hi hn => ?_⟩
    · by_contra hb
      exact hnd0.1 ((mem_bucketIndices f).mpr ⟨List.mem_range.mp (hp.subset h0), by simpa using hb⟩)
    · have : i ∈ sectionMap f := hp.symm.subset (List.mem_range.mpr hn)
      rw [sectionMap_eq, List.mem_cons] at this
      exact ((mem_bucketIndices f).mp (this.resolve_left (by omega))).2
  · rintro ⟨hn, h0, hall⟩
    refine (List.perm_ext_iff_of_nodup ?_ (List.nodup_range _)).mpr fun i => ?_
    · rw [sectionMap_eq, List.nodup_cons, mem_bucketIndices]
      exact ⟨fun h => by simp_all, hnd⟩
    · rw [sectionMap_eq, List.mem_cons, mem_bucketIndices, List.mem_range]
      constructor
      · rintro (rfl | ⟨hi, -⟩) <;> omega
      · intro hi
        rcases Nat.eq_zero_or_pos i with rfl | hpos
        · exact .inl rfl
        · exact .inr ⟨hi, hall i hpos hi⟩

/-- The size guard together with the absence of a section moved twice is exactly
the permutation condition. -/
theorem sectionMap_perm_iff_length_nodup :
    (sectionMap f).Perm (List.range f.sections.length) ↔
      (sectionMap f).length = f.sections.length ∧ (sectionMap f).Nodup := by
  constructor
  · intro hp
    exact ⟨by simpa using hp.length_eq, hp.nodup_iff.mpr (List.nodup_range _)⟩
  · rintro ⟨hlen, hnd⟩
    have hsub : sectionMap f ⊆ List.range f.sections.length := by
      intro i hi
      rw [sectionMap_eq, List.mem_cons] at hi
      rcases hi with rfl | hi
      · rw [List.mem_range]
        rcases Nat.eq_zero_or_pos f.sections.length with h | h
        · simp [h] at hlen
        · exact h
      · exact List.mem_range.mpr (lt_of_mem_bucketIndices f hi)
    exact (hnd.subperm hsub).perm_of_length_le (by simp [hlen])

end SectionMap

section Inverse

variable {σ : List Nat} {n : Nat}

private theorem mapOldToNew_loop (hnd : σ.Nodup) (hlt : ∀ k ∈ σ, k < n) :
    ∀ m, m ≤ σ.length →
      ((List.range m).foldl (fun m i => m.set (σ.getD i 0) (UInt16.ofNat i))
        (List.replicate n 0)).length = n ∧
      ∀ i, i < m → ∀ hσ : i < σ.length, ((List.range m).foldl
        (fun m i => m.set (σ.getD i 0) (UInt16.ofNat i)) (List.replicate n 0))[σ[i]]? =
          some (UInt16.ofNat i)
  | 0, _ => by simp
  | m + 1, hm => by
    obtain ⟨hlen, hget⟩ := mapOldToNew_loop hnd hlt m (by omega)
    have hσm : σ.getD m 0 = σ[m] := by simp [List.getElem?_eq_getElem hm]
    simp only [List.range_succ, List.foldl_append, List.foldl_cons, List.foldl_nil, hσm,
      List.length_set]
    refine ⟨hlen, fun i hi hσ => ?_⟩
    rcases Nat.lt_succ_iff_lt_or_eq.mp hi with hi | rfl
    · have hne : σ[m] ≠ σ[i] := fun h => by
        have := (List.Nodup.getElem_inj_iff hnd).mp h
        omega
      rw [List.getElem?_set_ne hne, hget i hi hσ]
    · rw [List.getElem?_set_self (by rw [hlen]; exact hlt _ (List.getElem_mem _))]

@[simp] theorem length_mapOldToNew (σ : List Nat) (n : Nat) : (mapOldToNew σ n).length = n := by
  unfold mapOldToNew
  generalize List.range σ.length = l
  induction l using List.reverseRecOn with
  | nil => simp
  | append_singleton l i ih =>
    simp only [List.foldl_append, List.foldl_cons, List.foldl_nil, List.length_set, ih]

/-- `mapOldToNew` sends the old index `sectionMap[i]` to `i`. -/
theorem getElem?_mapOldToNew (hnd : σ.Nodup) (hlt : ∀ k ∈ σ, k < n) {i : Nat}
    (hi : i < σ.length) : (mapOldToNew σ n)[σ[i]]? = some (UInt16.ofNat i) :=
  (mapOldToNew_loop hnd hlt σ.length le_rfl).2 i hi hi

end Inverse

/-- `mapOldToNew[k]`. -/
def newIndex (m : List UInt16) (k : Nat) : UInt16 := m.getD k 0

/-- Whether every index `reorderSectionIndex` looks up in `mapOldToNew` is below the
section count: `shstrndx`, every `link`, every `RELA` section's `info`, and every
symbol `shndx` below `SHN_LORESERVE`. -/
def referencesInRange (f : ElfFile) : Bool :=
  let n := f.sections.length
  decide (f.header.shstrndx.toNat < n) && f.sections.all fun s =>
    decide (s.header.link.toNat < n) &&
      (s.header.type != SHT_RELA || decide (s.header.info.toNat < n)) &&
      (s.header.type != SHT_SYMTAB || (Symbol.layout.records s.data).all fun sym =>
        decide (SHN_LORESERVE ≤ sym.shndx) || decide (sym.shndx.toNat < n))

/-- Map file `header.shstrndx`. -/
def remapShstrndx (m : List UInt16) (f : ElfFile) : ElfFile :=
  { f with header := { f.header with shstrndx := newIndex m f.header.shstrndx.toNat } }

/-- Map one section's `header.link`. -/
def remapLink (m : List UInt16) (s : Section) : Section :=
  { s with header := { s.header with link := (newIndex m s.header.link.toNat).toUInt32 } }

/-- Map section `header.link`. -/
def remapLinks (m : List UInt16) (f : ElfFile) : ElfFile :=
  { f with sections := f.sections.map (remapLink m) }

/-- Map a relocation section's `header.info`. -/
def remapRelaInfo (m : List UInt16) (s : Section) : Section :=
  if s.header.type = SHT_RELA then
    { s with header := { s.header with info := (newIndex m s.header.info.toNat).toUInt32 } }
  else s

/-- Map relocation sections' `header.info`. -/
def remapRelaInfos (m : List UInt16) (f : ElfFile) : ElfFile :=
  { f with sections := f.sections.map (remapRelaInfo m) }

/-- One symbol's `shndx`, mapped unless it is reserved. -/
def remapSymbol (m : List UInt16) (sym : Symbol) : Symbol :=
  if sym.shndx < SHN_LORESERVE then { sym with shndx := newIndex m sym.shndx.toNat } else sym

/-- Map `symbol.shndx` in a symbol table. -/
def remapSymbolTable (m : List UInt16) (s : Section) : Section :=
  if s.header.type = SHT_SYMTAB then
    { s with data := Symbol.layout.mapRecords (remapSymbol m) s.data }
  else s

/-- Map `symbol.shndx` in every symbol table. -/
def remapSymbols (m : List UInt16) (f : ElfFile) : ElfFile :=
  { f with sections := f.sections.map (remapSymbolTable m) }

/-- The file `reorderSectionIndex` builds once its checks pass: the sections moved into
the order `sectionMap` lists, then every index field mapped through `mapOldToNew`. -/
def reordered (f : ElfFile) : ElfFile :=
  let σ := sectionMap f
  let m := mapOldToNew σ f.sections.length
  remapSymbols m (remapRelaInfos m (remapLinks m (remapShstrndx m (applyOrder σ f))))

/-- `reorderSectionIndex`. A `sectionMap` of the right length that lists an index twice
moves one section twice, leaving an emptied pointer in the new list that the rewriting
loops dereference; and a field that indexes past `mapOldToNew` reads past its end. -/
def reorderSectionIndex (f : ElfFile) : Outcome :=
  if (sectionMap f).length ≠ f.sections.length then .error (.failed [.invalidSection])
  else if !(decide (sectionMap f).Nodup && referencesInRange f) then .error .undefined
  else .ok (reordered f)

section Sorted

variable (f : ElfFile)

/-- The rank of section `i`. -/
def rankAt (i : Nat) : Nat := rank (f.sections.getD i default).header

theorem rank_lt (h : SectionHeader) : rank h < buckets.length + 1 := by
  rw [rank]
  cases hf : buckets.findIdx? (· h) with
  | none => simp
  | some k =>
    obtain ⟨hk, -⟩ := List.findIdx?_eq_some_iff_getElem.mp hf
    simpa using hk

theorem indicesWhere_eq_rank {k : Nat} (hk : k < buckets.length) :
    indicesWhere f (buckets.getD k fun _ => false) =
      (List.range f.sections.length).filter (rankAt f · == k + 1) := by
  refine List.filter_congr fun i _ => ?_
  rw [List.getD_eq_getElem _ _ hk, rankAt, Bool.eq_iff_iff, beq_iff_eq, rank_eq_succ_iff hk]

theorem bucketIndices_eq_rank : bucketIndices f = (List.range buckets.length).flatMap fun k =>
    (List.range f.sections.length).filter (rankAt f · == k + 1) := by
  have hb : bucketIndices f = (List.range buckets.length).flatMap fun k =>
      indicesWhere f (buckets.getD k fun _ => false) := rfl
  rw [hb]
  exact List.flatMap_congr fun k hk => indicesWhere_eq_rank f (List.mem_range.mp hk)

/-- When section 0 is the only section of rank 0, `sectionMap` is the stable sort of
the section indices by rank. -/
theorem sectionMap_eq_mergeSort
    (h0 : (List.range f.sections.length).filter (rankAt f · == 0) = [0]) :
    sectionMap f = (List.range f.sections.length).mergeSort fun i j => rankAt f i ≤ rankAt f j := by
  rw [← flatMap_filter_eq_mergeSort (rankAt f) _ (buckets.length + 1) fun _ _ => rank_lt _,
    List.range_succ_eq_map, List.flatMap_cons, List.flatMap_map, h0, sectionMap_eq,
    bucketIndices_eq_rank]
  rfl

theorem rankAt_eq_zero_iff {i : Nat} : rankAt f i = 0 ↔ bucketedAt f i = false :=
  rank_eq_zero_iff

/-- When `sectionMap` is a permutation, section 0 is the only section of rank 0. -/
theorem filter_rankAt_eq_zero (hp : (sectionMap f).Perm (List.range f.sections.length)) :
    (List.range f.sections.length).filter (rankAt f · == 0) = [0] := by
  obtain ⟨hn, h0, hall⟩ := (sectionMap_perm_iff f).mp hp
  obtain ⟨k, hk⟩ : ∃ k, f.sections.length = k + 1 := ⟨_, (Nat.succ_pred_eq_of_pos hn).symm⟩
  rw [hk] at hall
  rw [hk, List.range_succ_eq_map, List.filter_cons_of_pos (by simpa [rankAt_eq_zero_iff] using h0),
    List.filter_eq_nil_iff.mpr]
  simp only [List.mem_map, List.mem_range]
  rintro _ ⟨j, hj, rfl⟩
  simpa [rankAt_eq_zero_iff] using hall (j + 1) (by omega) (by omega)

end Sorted

/-- A symbol rewritten for the new order: `shndx` below `SHN_LORESERVE` now names, in the
new order `σ` (new index ↦ old index), the section it named before; nothing else moved. -/
structure SymbolReindexed (σ : List Nat) (sym sym' : Symbol) : Prop where
  fields : { sym' with shndx := sym.shndx } = sym
  reserved : SHN_LORESERVE ≤ sym.shndx → sym'.shndx = sym.shndx
  shndx : sym.shndx < SHN_LORESERVE → σ[sym'.shndx.toNat]? = some sym.shndx.toNat

/-- A section rewritten for the new order `σ`: its `link`, its `info` when it is a
relocation section, and its symbols' `shndx` when it is a symbol table name the
sections they named before; everything else is unchanged. -/
structure SectionReindexed (σ : List Nat) (s s' : Section) : Prop where
  name : s'.name = s.name
  fields : { s'.header with link := s.header.link, info := s.header.info } = s.header
  link : σ[s'.header.link.toNat]? = some s.header.link.toNat
  info : if s.header.type = SHT_RELA then σ[s'.header.info.toNat]? = some s.header.info.toNat
    else s'.header.info = s.header.info
  data : if s.header.type = SHT_SYMTAB then
      List.Forall₂ (SymbolReindexed σ) (Symbol.layout.records s.data)
        (Symbol.layout.records s'.data) ∧
      Symbol.layout.trailing s'.data = Symbol.layout.trailing s.data
    else s'.data = s.data

/-- `f'` holds the sections of `f` in the order `σ`, new index `j` holding old section
`σ[j]`, with every index-valued field rewritten to designate the same section. -/
structure Reindexed (σ : List Nat) (f f' : ElfFile) : Prop where
  length : f'.sections.length = f.sections.length
  fields : { f'.header with shstrndx := f.header.shstrndx } = f.header
  shstrndx : σ[f'.header.shstrndx.toNat]? = some f.header.shstrndx.toNat
  sections : ∀ j (hj : j < f'.sections.length), ∃ i, σ[j]? = some i ∧
    ∃ hi : i < f.sections.length, SectionReindexed σ f.sections[i] f'.sections[j]

theorem SectionReindexed.type_eq {σ : List Nat} {s s' : Section} (h : SectionReindexed σ s s') :
    s'.header.type = s.header.type := by
  have h := congrArg SectionHeader.type h.fields
  exact h

/-- Rewriting the symbols' `shndx` keeps the size of a symbol table. -/
theorem SectionReindexed.length_data {σ : List Nat} {s s' : Section}
    (h : SectionReindexed σ s s') : s'.data.length = s.data.length := by
  have hd := h.data
  split_ifs at hd
  · rw [← Symbol.layout.encodeAll_records_append_trailing s'.data,
      ← Symbol.layout.encodeAll_records_append_trailing s.data]
    simp only [List.length_append, Layout.length_encodeAll, hd.1.length_eq, hd.2]
  · rw [hd]

section Reindex

variable {σ : List Nat} {n : Nat}

/-- `mapOldToNew` undoes `sectionMap`: the old index listed at `i` goes back to `i`. -/
theorem toNat_newIndex_getElem (hp : σ.Perm (List.range n)) (hn : n ≤ 2 ^ 16) {i : Nat}
    (hi : i < σ.length) : (newIndex (mapOldToNew σ n) σ[i]).toNat = i := by
  have hlt : ∀ k ∈ σ, k < n := fun k hk => List.mem_range.mp (hp.subset hk)
  have hlen : σ.length = n := by simpa using hp.length_eq
  rw [newIndex, List.getD_eq_getElem?_getD,
    getElem?_mapOldToNew (hp.nodup_iff.mpr (List.nodup_range n)) hlt hi]
  simp [Nat.mod_eq_of_lt (show i < 65536 by omega)]

/-- Through `mapOldToNew`, an old index goes to the new index holding the same section. -/
theorem getElem?_newIndex (hp : σ.Perm (List.range n)) (hn : n ≤ 2 ^ 16) {k : Nat}
    (hk : k < n) : σ[(newIndex (mapOldToNew σ n) k).toNat]? = some k := by
  obtain ⟨i, hi, rfl⟩ := List.getElem_of_mem (hp.symm.subset (List.mem_range.mpr hk))
  rw [toNat_newIndex_getElem hp hn hi, List.getElem?_eq_getElem hi]

theorem referencesInRange_iff {f : ElfFile} : referencesInRange f = true ↔
    f.header.shstrndx.toNat < f.sections.length ∧ ∀ s ∈ f.sections,
      s.header.link.toNat < f.sections.length ∧
      (s.header.type = SHT_RELA → s.header.info.toNat < f.sections.length) ∧
      (s.header.type = SHT_SYMTAB → ∀ sym ∈ Symbol.layout.records s.data,
        sym.shndx < SHN_LORESERVE → sym.shndx.toNat < f.sections.length) := by
  simp only [referencesInRange, Bool.and_eq_true, decide_eq_true_eq, List.all_eq_true,
    Bool.or_eq_true, bne_iff_ne, ne_eq, ← UInt16.not_lt, ← imp_iff_not_or, and_assoc]

theorem symbolReindexed_remapSymbol (hp : σ.Perm (List.range n)) (hn : n ≤ 2 ^ 16)
    {sym : Symbol} (hsym : sym.shndx < SHN_LORESERVE → sym.shndx.toNat < n) :
    SymbolReindexed σ sym (remapSymbol (mapOldToNew σ n) sym) := by
  unfold remapSymbol
  by_cases h : sym.shndx < SHN_LORESERVE
  · exact ⟨by simp [h], fun h' => absurd h (UInt16.not_lt.mpr h'),
      fun _ => by simpa [h] using getElem?_newIndex hp hn (hsym h)⟩
  · exact ⟨by simp [h], fun _ => by simp [h], fun h' => absurd h' h⟩

end Reindex

section Pass

variable {f : ElfFile}

theorem reorderSectionIndex_eq_ok_iff {f' : ElfFile} :
    reorderSectionIndex f = .ok f' ↔ (sectionMap f).Perm (List.range f.sections.length) ∧
      referencesInRange f = true ∧ reordered f = f' := by
  rw [sectionMap_perm_iff_length_nodup]
  unfold reorderSectionIndex
  split_ifs with h1 h2
  · exact iff_of_false (by simp) fun h => h1 h.1.1
  · exact iff_of_false (by simp) fun ⟨⟨_, hnd⟩, hr, _⟩ => by simp [hnd, hr] at h2
  · simp_all

theorem length_reordered (hp : (sectionMap f).Perm (List.range f.sections.length)) :
    (reordered f).sections.length = f.sections.length := by
  simpa [reordered, remapSymbols, remapRelaInfos, remapLinks, remapShstrndx, applyOrder]
    using hp.length_eq

theorem getElem_reordered {j : Nat} (hj : j < (reordered f).sections.length) :
    ∃ hj' : j < (sectionMap f).length, (reordered f).sections[j] =
      remapSymbolTable (mapOldToNew (sectionMap f) f.sections.length)
        (remapRelaInfo (mapOldToNew (sectionMap f) f.sections.length)
          (remapLink (mapOldToNew (sectionMap f) f.sections.length)
            (f.sections.getD (sectionMap f)[j] default))) := by
  simp only [reordered, remapSymbols, remapRelaInfos, remapLinks, remapShstrndx, applyOrder,
    List.length_map] at hj
  exact ⟨hj, by simp [reordered, remapSymbols, remapRelaInfos, remapLinks, remapShstrndx,
    applyOrder]⟩

theorem sectionReindexed_remap {σ : List Nat} {n : Nat} (hp : σ.Perm (List.range n))
    (hn : n ≤ 2 ^ 16) {s : Section} (hlink : s.header.link.toNat < n)
    (hinfo : s.header.type = SHT_RELA → s.header.info.toNat < n)
    (hsym : s.header.type = SHT_SYMTAB → ∀ sym ∈ Symbol.layout.records s.data,
      sym.shndx < SHN_LORESERVE → sym.shndx.toNat < n) :
    SectionReindexed σ s (remapSymbolTable (mapOldToNew σ n) (remapRelaInfo (mapOldToNew σ n)
      (remapLink (mapOldToNew σ n) s))) := by
  have hl : σ[((newIndex (mapOldToNew σ n) s.header.link.toNat).toUInt32).toNat]? =
      some s.header.link.toNat := by simpa using getElem?_newIndex hp hn hlink
  by_cases hr : s.header.type = SHT_RELA
  · have hs : s.header.type ≠ SHT_SYMTAB := by rw [hr]; decide
    have hi := getElem?_newIndex hp hn (hinfo hr)
    dsimp only [remapSymbolTable, remapRelaInfo, remapLink]
    rw [if_pos hr, if_neg hs]
    exact ⟨rfl, rfl, hl, by simpa [hr] using hi, by simp [hs]⟩
  by_cases hs : s.header.type = SHT_SYMTAB
  · dsimp only [remapSymbolTable, remapRelaInfo, remapLink]
    rw [if_neg hr, if_pos hs]
    refine ⟨rfl, rfl, hl, by simp [hr], ?_⟩
    simp only [hs, if_true, Layout.records_mapRecords, Layout.trailing_mapRecords, and_true]
    exact List.forall₂_map_right_iff.mpr (List.forall₂_same.mpr fun sym hsm =>
      symbolReindexed_remapSymbol hp hn (hsym hs sym hsm))
  · dsimp only [remapSymbolTable, remapRelaInfo, remapLink]
    rw [if_neg hr, if_neg hs]
    exact ⟨rfl, rfl, hl, by simp [hr], by simp [hs]⟩

/-- Once its checks pass, `reorderSectionIndex` moves the sections into the order
`sectionMap` lists and every index field follows its section. -/
theorem reindexed_reordered (hp : (sectionMap f).Perm (List.range f.sections.length))
    (hn : f.sections.length ≤ 2 ^ 16) (hr : referencesInRange f = true) :
    Reindexed (sectionMap f) f (reordered f) := by
  obtain ⟨hsh, hsecs⟩ := referencesInRange_iff.mp hr
  refine ⟨length_reordered hp, by simp [reordered, remapSymbols, remapRelaInfos, remapLinks,
    remapShstrndx, applyOrder], by simpa [reordered, remapSymbols, remapRelaInfos, remapLinks,
    remapShstrndx, applyOrder] using getElem?_newIndex hp hn hsh, fun j hj => ?_⟩
  obtain ⟨hj', hget⟩ := getElem_reordered hj
  have hi : (sectionMap f)[j] < f.sections.length :=
    List.mem_range.mp (hp.subset (List.getElem_mem hj'))
  refine ⟨_, List.getElem?_eq_getElem hj', hi, ?_⟩
  rw [hget, List.getD_eq_getElem _ _ hi]
  obtain ⟨h1, h2, h3⟩ := hsecs _ (List.getElem_mem hi)
  exact sectionReindexed_remap hp hn h1 h2 h3

/-- On a section list whose section 0 is `NULL`, whose other sections all have bucket
types and whose index fields are all in range, `reorderSectionIndex` succeeds: the new
order is a permutation, the stable sort of the old order by rank, `mapOldToNew` undoes
it both ways, and every index field designates the section it designated before. -/
theorem reorderSectionIndex_canonical (f : ElfFile) (hn : f.sections.length ≤ 2 ^ 16)
    (hpos : 0 < f.sections.length) (hnull : f.sections[0].header.type = SHT_NULL)
    (htypes : ∀ i (hi : i < f.sections.length), 0 < i → f.sections[i].header.type ∈ bucketTypes)
    (hshstrndx : f.header.shstrndx.toNat < f.sections.length)
    (hsecs : ∀ s ∈ f.sections, s.header.link.toNat < f.sections.length ∧
      (s.header.type = SHT_RELA → s.header.info.toNat < f.sections.length) ∧
      (s.header.type = SHT_SYMTAB → ∀ sym ∈ Symbol.layout.records s.data,
        sym.shndx < SHN_LORESERVE → sym.shndx.toNat < f.sections.length)) :
    (sectionMap f).Perm (List.range f.sections.length) ∧
    sectionMap f = (List.range f.sections.length).mergeSort (fun i j => rankAt f i ≤ rankAt f j) ∧
    (∀ i (hi : i < (sectionMap f).length),
      (newIndex (mapOldToNew (sectionMap f) f.sections.length) (sectionMap f)[i]).toNat = i) ∧
    (∀ k < f.sections.length,
      (sectionMap f)[(newIndex (mapOldToNew (sectionMap f) f.sections.length) k).toNat]? = some k) ∧
    ∃ f', reorderSectionIndex f = .ok f' ∧ Reindexed (sectionMap f) f f' := by
  have hb : ∀ i (hi : i < f.sections.length), bucketedAt f i = bucketed f.sections[i].header :=
    fun i hi => by rw [bucketedAt, List.getD_eq_getElem _ _ hi]
  have hp : (sectionMap f).Perm (List.range f.sections.length) := by
    refine (sectionMap_perm_iff f).mpr ⟨hpos, ?_, fun i hi hlt => ?_⟩
    · rw [hb 0 hpos, Bool.eq_false_iff, ne_eq, bucketed_iff_type, hnull]
      decide
    · rw [hb i hlt, bucketed_iff_type]
      exact htypes i hlt hi
  have hr : referencesInRange f = true := referencesInRange_iff.mpr ⟨hshstrndx, hsecs⟩
  exact ⟨hp, sectionMap_eq_mergeSort f (filter_rankAt_eq_zero f hp),
    fun i hi => toNat_newIndex_getElem hp hn hi, fun k hk => getElem?_newIndex hp hn hk,
    _, reorderSectionIndex_eq_ok_iff.mpr ⟨hp, hr, rfl⟩, reindexed_reordered hp hn hr⟩

/-- A symbol table listed before the code section: P3 puts `.text` first. -/
def symtabThenText : ElfFile :=
  ⟨default, [default,
    ⟨{ (default : SectionHeader) with type := SHT_SYMTAB }, ascii ".symtab", []⟩,
    ⟨{ (default : SectionHeader) with type := SHT_PROGBITS, flags := SHF_ALLOC ||| SHF_EXECINSTR },
      ascii ".text", []⟩]⟩

theorem reorderSectionIndex_canonical_symtabThenText :
    sectionMap symtabThenText = [0, 2, 1] ∧
      ∃ f', reorderSectionIndex symtabThenText = .ok f' ∧ Reindexed [0, 2, 1] symtabThenText f' := by
  have hσ : sectionMap symtabThenText = [0, 2, 1] := by decide
  obtain ⟨-, -, -, -, f', hok, hre⟩ := reorderSectionIndex_canonical symtabThenText (by decide)
    (by decide) (by decide) (by decide) (by decide) (by decide)
  exact ⟨hσ, f', hok, hσ ▸ hre⟩

/-- A section 0 of a bucketed type is listed twice in `sectionMap`. -/
theorem not_nodup_sectionMap (f : ElfFile) (hpos : 0 < f.sections.length)
    (h0 : bucketedAt f 0 = true) : ¬(sectionMap f).Nodup := by
  rw [sectionMap_eq, List.nodup_cons]
  exact fun h => h.1 ((mem_bucketIndices f).mpr ⟨hpos, h0⟩)

/-- With index 0 listed twice, the size guard no longer detects the section the loops
miss, and the pass dereferences the entry moved out twice. -/
theorem reorderSectionIndex_undefined_of_bucketed_zero (f : ElfFile)
    (hpos : 0 < f.sections.length) (h0 : bucketedAt f 0 = true)
    (hlen : (sectionMap f).length = f.sections.length) :
    reorderSectionIndex f = .error .undefined := by
  unfold reorderSectionIndex
  simp [hlen, not_nodup_sectionMap f hpos h0]

/-- `reorderSectionIndex` succeeds exactly when `sectionMap` is a permutation of the
section indices and every index field is in range; when it succeeds on at most
`2 ^ 16` sections, the new list holds every old section once, with every index field
following its section, and `mapOldToNew` is the inverse of `sectionMap`. A section 0
of a bucketed type makes `sectionMap` list index 0 twice. -/
theorem reorderSectionIndex_ok_iff_perm (f : ElfFile) :
    ((∃ f', reorderSectionIndex f = .ok f') ↔
      (sectionMap f).Perm (List.range f.sections.length) ∧ referencesInRange f = true) ∧
    (∀ f', reorderSectionIndex f = .ok f' → f.sections.length ≤ 2 ^ 16 →
      Reindexed (sectionMap f) f f' ∧ ∀ k < f.sections.length,
        (sectionMap f)[(newIndex (mapOldToNew (sectionMap f) f.sections.length) k).toNat]? =
          some k) ∧
    (0 < f.sections.length → bucketedAt f 0 = true → ¬(sectionMap f).Nodup ∧
      ((sectionMap f).length = f.sections.length → reorderSectionIndex f = .error .undefined)) := by
  refine ⟨⟨fun ⟨_, h⟩ => ?_, fun ⟨hp, hr⟩ => ⟨_, reorderSectionIndex_eq_ok_iff.mpr ⟨hp, hr, rfl⟩⟩⟩,
    fun f' h hn => ?_, fun hpos h0 => ?_⟩
  · obtain ⟨hp, hr, -⟩ := reorderSectionIndex_eq_ok_iff.mp h
    exact ⟨hp, hr⟩
  · obtain ⟨hp, hr, rfl⟩ := reorderSectionIndex_eq_ok_iff.mp h
    exact ⟨reindexed_reordered hp hn hr, fun k hk => getElem?_newIndex hp hn hk⟩
  · exact ⟨not_nodup_sectionMap f hpos h0,
      reorderSectionIndex_undefined_of_bucketed_zero f hpos h0⟩

/-- A single `NULL` section whose `link` is 1: `sectionMap` is the identity permutation,
yet the pass reads `mapOldToNew[1]` past the end of the one-entry map. -/
theorem reorderSectionIndex_perm_link_out_of_range :
    (sectionMap ⟨default, [⟨{ (default : SectionHeader) with link := 1 }, [], []⟩]⟩).Perm (List.range 1) ∧
      reorderSectionIndex ⟨default, [⟨{ (default : SectionHeader) with link := 1 }, [], []⟩]⟩ = .error .undefined :=
  ⟨by decide, rfl⟩

end Pass

end Elf2Rpl
