import Elf2Rpl.Tool.Crcs
import Elf2Rpl.Tool.ReadElf

/-! # P10: compressing the payloads

`deflateSections` compresses every payload of at least `DeflateMinSectionSize` bytes,
except the CRC table and the `FILEINFO` record. The new payload is the original size as
a big-endian word followed by the stream zlib produced, copied out of a 16 KiB chunk
buffer one `deflate` call at a time, and the section gains `SHF_DEFLATED`. A section
keeps its place, its name and its type, and its payload is empty after the pass exactly
when it was before (`deflateSections_eq_ok`). The loop copies the stream whole, each chunk
once (`deflateLoop_eq`), so a compressed payload is the size followed by zlib's stream
(`deflateSections_payloads`).
-/

namespace Elf2Rpl

open elf

/-- `chunk.resize(16 * 1024)`. -/
def ChunkSize : Nat := 16 * 1024

/-- `DeflateMinSectionSize`. -/
def DeflateMinSectionSize : Nat := 0x18

/-- The `do`/`while` loop, with zlib's stream as the bytes `stream` it has not handed out
yet: a `deflate(&stream, Z_FINISH)` call fills the chunk with the next
`min(avail_out, r)` of them, the chunk is appended, and the loop runs again while the
call left `avail_out` at 0. -/
def deflateLoop (stream deflated : List UInt8) : List UInt8 :=
  let chunk := stream.take ChunkSize
  let deflated := deflated ++ chunk
  if ChunkSize - chunk.length = 0 then deflateLoop (stream.drop ChunkSize) deflated
  else deflated
termination_by stream.length
decreasing_by
  simp_wf
  simp only [chunk, List.length_take, ChunkSize] at *
  omega

/-- The loop appends the whole stream, each chunk once and in order: every turn but the
last hands out a full chunk, and the last one gets what is left, nothing when the
stream's length is a multiple of `ChunkSize`. -/
theorem deflateLoop_eq (stream deflated : List UInt8) :
    deflateLoop stream deflated = deflated ++ stream := by
  induction stream, deflated using deflateLoop.induct with
  | case1 stream deflated chunk deflated' h ih =>
    rw [deflateLoop, if_pos h, ih, List.append_assoc, List.take_append_drop]
  | case2 stream deflated chunk h =>
    have hlt : stream.length ≤ ChunkSize := by
      simp only [chunk, List.length_take] at h
      omega
    rw [deflateLoop, if_neg h, List.take_of_length_le hlt]

/-- One turn of the loop over the sections. -/
def deflateSection (z : Zlib) (s : Section) : Except Fault Section :=
  if s.data.length < DeflateMinSectionSize ∨ s.header.type = SHT_RPL_CRCS ∨
      s.header.type = SHT_RPL_FILEINFO then .ok s
  else
    match z.compress s.data with
    | none => .error (.failed [])
    | some stream =>
      let deflated := deflateLoop stream (List.replicate 4 0)
      .ok { s with
        header := { s.header with flags := s.header.flags ||| SHF_DEFLATED }
        data := Layout.u32.encode (UInt32.ofNat s.data.length) ++ deflated.drop 4 }

/-- `deflateSections`. The failure prints nothing. -/
def deflateSections (z : Zlib) (f : ElfFile) : Outcome := do
  let sections ← f.sections.mapM (deflateSection z)
  pure { f with sections }

/-- A section that `deflateSections` leaves alone. -/
def keepsPayload (s : Section) : Prop :=
  s.data.length < DeflateMinSectionSize ∨ s.header.type = SHT_RPL_CRCS ∨
    s.header.type = SHT_RPL_FILEINFO

instance : DecidablePred keepsPayload := fun _ => inferInstanceAs (Decidable (_ ∨ _ ∨ _))

/-- A section whose payload zlib compressed to `C`, as the format describes it: flagged
`SHF_DEFLATED`, with the original size as a big-endian word in front of `C`. -/
def withDeflatedPayload (s : Section) (C : List UInt8) : Section :=
  { s with
    header := { s.header with flags := s.header.flags ||| SHF_DEFLATED }
    data := beBytes 4 s.data.length ++ C }

/-- What one turn does to a section: it keeps its name and type, its payload is empty
exactly when it was, and a section the pass skips is unchanged. -/
theorem deflateSection_eq_ok {z : Zlib} {s s' : Section} (h : deflateSection z s = .ok s') :
    s'.name = s.name ∧ s'.header.type = s.header.type ∧ (s'.data = [] ↔ s.data = []) ∧
      (keepsPayload s → s' = s) := by
  unfold deflateSection at h
  split_ifs at h with hk
  · cases h
    exact ⟨rfl, rfl, Iff.rfl, fun _ => rfl⟩
  · split at h
    · cases h
    · cases h
      have hne : s.data ≠ [] := fun he => hk (.inl (by simp [he, DeflateMinSectionSize]))
      refine ⟨rfl, rfl, ?_, fun hk' => absurd hk' hk⟩
      simp only [hne, iff_false]
      rw [← List.length_eq_zero, List.length_append, Layout.length_encode]
      exact Nat.ne_of_gt (Nat.add_pos_left Layout.u32.width_pos _)

theorem deflateSection_of_keepsPayload (z : Zlib) {s : Section} (hk : keepsPayload s) :
    deflateSection z s = .ok s :=
  if_pos hk

/-- A turn on a section the pass compresses writes zlib's whole stream behind the size. -/
theorem deflateSection_of_compress {z : Zlib} {s : Section} {C : List UInt8}
    (hk : ¬keepsPayload s) (hC : z.compress s.data = some C) :
    deflateSection z s = .ok (withDeflatedPayload s C) := by
  have hk' : ¬(s.data.length < DeflateMinSectionSize ∨ s.header.type = SHT_RPL_CRCS ∨
      s.header.type = SHT_RPL_FILEINFO) := hk
  rw [deflateSection, if_neg hk', hC]
  simp only [deflateLoop_eq, List.drop_left' (List.length_replicate 4 0),
    Layout.u32_encode_ofNat]
  rfl

/-- Everything one turn can do: keep a section the pass skips, or write zlib's whole
stream behind the size of a section it compresses. -/
theorem deflateSection_cases {z : Zlib} {s s' : Section} (h : deflateSection z s = .ok s') :
    keepsPayload s ∧ s' = s ∨
      ¬keepsPayload s ∧ ∃ C, z.compress s.data = some C ∧ s' = withDeflatedPayload s C := by
  by_cases hk : keepsPayload s
  · exact .inl ⟨hk, Except.ok.inj (h.symm.trans (deflateSection_of_keepsPayload z hk))⟩
  · refine .inr ⟨hk, ?_⟩
    cases hC : z.compress s.data with
    | none =>
      have hk' : ¬(s.data.length < DeflateMinSectionSize ∨ s.header.type = SHT_RPL_CRCS ∨
          s.header.type = SHT_RPL_FILEINFO) := hk
      rw [deflateSection, if_neg hk', hC] at h
      cases h
    | some C => exact ⟨C, rfl, Except.ok.inj (h.symm.trans (deflateSection_of_compress hk hC))⟩

/-- `deflateSections` keeps the header and the number and order of the sections; each
section is the result of one turn on the section in its place. -/
theorem deflateSections_eq_ok {z : Zlib} {f f' : ElfFile} (h : deflateSections z f = .ok f') :
    f'.header = f.header ∧
      List.Forall₂ (fun s s' => deflateSection z s = .ok s') f.sections f'.sections := by
  obtain ⟨secs, hsecs, h⟩ := bind_eq_ok.mp h
  cases h
  exact ⟨rfl, mapM_eq_ok.mp hsecs⟩

/-- `deflateSections` fails exactly when zlib fails on a payload the pass compresses. -/
theorem deflateSections_ok_iff {z : Zlib} {f : ElfFile} :
    (∃ f', deflateSections z f = .ok f') ↔
      ∀ s ∈ f.sections, ¬keepsPayload s → (z.compress s.data).isSome := by
  constructor
  · rintro ⟨f', h⟩ s hs hk
    have hF : List.Forall₂ (fun s s' => (∃ s'', deflateSection z s = .ok s'') ∧
        deflateSection z s = .ok s') f.sections f'.sections :=
      (deflateSections_eq_ok h).2.imp fun _ b h => ⟨⟨b, h⟩, h⟩
    obtain ⟨s', hs'⟩ := ((List.forall₂_and_left _ _).mp hF).1 s hs
    rcases deflateSection_cases hs' with ⟨hk', -⟩ | ⟨-, C, hC, -⟩
    · exact absurd hk' hk
    · simp [hC]
  · intro hz
    have hs : ∀ s ∈ f.sections, ∃ s', deflateSection z s = .ok s' := fun s hs => by
      by_cases hk : keepsPayload s
      · exact ⟨s, deflateSection_of_keepsPayload z hk⟩
      · obtain ⟨C, hC⟩ := Option.isSome_iff_exists.mp (hz s hs hk)
        exact ⟨_, deflateSection_of_compress hk hC⟩
    choose! g hg using hs
    exact ⟨_, bind_eq_ok.mpr ⟨_, mapM_eq_ok_map hg, rfl⟩⟩

/-- With a compressor that never fails, `deflateSections` never fails. -/
theorem deflateSections_ok {z : Zlib} (hz : ∀ d, (z.compress d).isSome) (f : ElfFile) :
    ∃ f', deflateSections z f = .ok f' :=
  deflateSections_ok_iff.mpr fun s _ _ => hz s.data

/-- When zlib compresses every payload the pass compresses, the pass succeeds: a section it
compresses ends flagged, its payload the original size followed by the whole stream, at
every length of the stream, and every other section is unchanged. -/
theorem deflateSections_payloads (z : Zlib) (f : ElfFile) (C : Section → List UInt8)
    (hC : ∀ s ∈ f.sections, ¬keepsPayload s → z.compress s.data = some (C s)) :
    deflateSections z f = .ok { f with sections := f.sections.map (fun s =>
      if keepsPayload s then s else withDeflatedPayload s (C s)) } := by
  refine bind_eq_ok.mpr ⟨_, mapM_eq_ok_map fun s hs => ?_, rfl⟩
  split_ifs with hk
  · exact deflateSection_of_keepsPayload z hk
  · exact deflateSection_of_compress hk (hC s hs hk)

/-- A compressor whose every stream is exactly one chunk long, so that the loop's last
call hands out nothing. -/
def oneChunkZlib : Zlib := ⟨fun _ => 0, fun _ => some (List.replicate ChunkSize 0)⟩

/-- A null section and a 24-byte `.text`. -/
def textPayloadFile : ElfFile :=
  ⟨default, [default,
    { header := { (default : SectionHeader) with type := SHT_PROGBITS }, name := ascii ".text",
      data := List.replicate 24 0 }]⟩

theorem deflateSections_payloads_oneChunk :
    (∀ s ∈ textPayloadFile.sections, ¬keepsPayload s →
      oneChunkZlib.compress s.data = some (List.replicate ChunkSize 0)) ∧
    deflateSections oneChunkZlib textPayloadFile = .ok { textPayloadFile with
      sections := textPayloadFile.sections.map (fun s =>
        if keepsPayload s then s else withDeflatedPayload s (List.replicate ChunkSize 0)) } :=
  ⟨fun _ _ _ => rfl, deflateSections_payloads oneChunkZlib textPayloadFile _ fun _ _ _ => rfl⟩

end Elf2Rpl
