import Elf2Rpl.Tool.ReadElf

/-! # P2: `.bss` back to `SHT_NOBITS`

The linker script sometimes emits `.bss` as `PROGBITS` full of zeros. `fixBssNoBits`
finds the first section named `.bss`; it fails if that section holds a nonzero byte,
and otherwise turns it back into an empty `SHT_NOBITS` section at offset 0. Every
other section is left alone, and no section is added or removed.
-/

namespace Elf2Rpl

open elf

/-- What `fixBssNoBits` does to the `.bss` section. -/
def clearBss (s : Section) : Section :=
  { s with header := { s.header with type := SHT_NOBITS, offset := 0 }, data := [] }

/-- `fixBssNoBits`. The failure prints nothing. -/
def fixBssNoBits (f : ElfFile) : Outcome :=
  match getSectionByName f (ascii ".bss") with
  | none => .ok f
  | some i =>
    if (f.sections.getD i default).data.any (· != 0) then .error (.failed [])
    else .ok (f.modifySection i clearBss)

@[simp] theorem clearBss_name (s : Section) : (clearBss s).name = s.name := rfl

@[simp] theorem clearBss_data (s : Section) : (clearBss s).data = [] := rfl

@[simp] theorem clearBss_type (s : Section) : (clearBss s).header.type = SHT_NOBITS := rfl

/-- After `fixBssNoBits` every section is the one before it, or the first `.bss`
emptied into `SHT_NOBITS`. -/
theorem fixBssNoBits_eq_ok {f f' : ElfFile} (h : fixBssNoBits f = .ok f') :
    f'.header = f.header ∧
      List.Forall₂ (fun s s' => s' = s ∨ s' = clearBss s) f.sections f'.sections := by
  unfold fixBssNoBits at h
  split at h
  · cases h
    exact ⟨rfl, List.forall₂_same.mpr fun _ _ => .inl rfl⟩
  · rename_i k _
    split_ifs at h
    cases h
    refine ⟨rfl, List.forall₂_iff_get.mpr ⟨by simp [ElfFile.modifySection], fun i h₁ h₂ => ?_⟩⟩
    by_cases hik : k = i
    · subst hik
      simp [ElfFile.modifySection, List.getElem_modify]
    · simp [ElfFile.modifySection, List.getElem_modify, hik]

/-- Section `i` after `fixBssNoBits`: the one before it, or, when it is the first `.bss`
and holds only zeros, that section emptied into `SHT_NOBITS`. -/
theorem fixBssNoBits_sec {f f' : ElfFile} (h : fixBssNoBits f = .ok f') (i : Nat) :
    f'.sec i = f.sec i ∨ getSectionByName f (ascii ".bss") = some i ∧
      (∀ b ∈ (f.sec i).data, b = 0) ∧ f'.sec i = clearBss (f.sec i) := by
  unfold fixBssNoBits at h
  split at h
  · cases h
    exact .inl rfl
  · rename_i k hk
    split_ifs at h with hz
    cases h
    have hlt : k < f.sections.length := by
      rw [getSectionByName_eq] at hk
      exact (List.findIdx?_eq_some_iff_getElem.mp hk).1
    rw [ElfFile.sec_modifySection f hlt]
    by_cases hki : k = i
    · subst hki
      refine .inr ⟨hk, fun b hb => ?_, if_pos rfl⟩
      simp only [List.any_eq_true, bne_iff_ne, not_exists, not_and, not_not] at hz
      exact hz b hb
    · exact .inl (if_neg hki)

/-- Without a section named `.bss` the pass changes nothing. -/
theorem fixBssNoBits_of_none {f : ElfFile} (h : getSectionByName f (ascii ".bss") = none) :
    fixBssNoBits f = .ok f := by
  unfold fixBssNoBits
  rw [h]

end Elf2Rpl
