import Cosmos3.Preflight.Shards

namespace Cosmos3.Preflight

open Basis Basis.Python Checkpoint

section Headers

variable {ε : Type} {shown : Shown} {loads : Bytes → Except ε Value} {disk : Disk} {dir : Path}

theorem forall₂_left {α β : Type} {R : α → β → Prop} {as : List α} {bs : List β}
    (h : List.Forall₂ R as bs) : ∀ a ∈ as, ∃ b ∈ bs, R a b := by
  induction h with
  | nil => simp
  | cons hab _ ih =>
      rintro a (_ | ⟨_, ha⟩)
      · exact ⟨_, List.mem_cons_self, hab⟩
      · obtain ⟨b, hb, hrel⟩ := ih a ha
        exact ⟨b, List.mem_cons_of_mem _ hb, hrel⟩

-- What the last shard that has a name says of it.
def lastEntry (loads : Bytes → Except ε Value) (disk : Disk) (dir : Path) (name : Text) : Option Value :=
  (transformerShards disk dir).reverse.findSome? fun path =>
    (readShard loads disk path).toOption.bind fun header => header.get name

theorem findSome?_headers {paths : List Path} {headers : List (Table Text Value)} {name : Text}
    (h : List.Forall₂ (fun path header => readShard loads disk path = .ok header) paths headers) :
    (paths.findSome? fun path => (readShard loads disk path).toOption.bind fun header => header.get name) =
      headers.findSome? fun header => header.get name := by
  induction h with
  | nil => rfl
  | cons hheader _ ih =>
      rw [List.findSome?_cons, List.findSome?_cons, hheader, ih]
      rfl

theorem get_mergedOf_eq_lastEntry {headers : List (Table Text Value)} {name : Text}
    (h : List.Forall₂ (fun path header => readShard loads disk path = .ok header)
      (transformerShards disk dir) headers) :
    (mergedOf headers Table.empty).get name = lastEntry loads disk dir name := by
  rw [get_mergedOf, Table.get_empty, Option.or_none, lastEntry]
  exact (findSome?_headers (List.rel_reverse h)).symm

theorem assertReasonerSource_eq_ok : assertReasonerSource shown loads disk dir = .ok () ↔
    transformerShards disk dir ≠ [] ∧ ∃ headers,
      List.Forall₂ (fun path header => readShard loads disk path = .ok header)
        (transformerShards disk dir) headers ∧
      (∀ name entry, (mergedOf headers Table.empty).get name = some entry → Passes shown (name, entry)) ∧
      ∃ name entry, (mergedOf headers Table.empty).get name = some entry ∧
        kindOf shown (name, entry) = .weight := by
  have hread : ∀ merged, readTransformerHeaders loads disk dir = .ok merged ↔
      transformerShards disk dir ≠ [] ∧ ∃ headers,
        List.Forall₂ (fun path header => readShard loads disk path = .ok header)
          (transformerShards disk dir) headers ∧ mergedOf headers Table.empty = merged := by
    intro merged
    unfold readTransformerHeaders
    split_ifs with hempty
    · simp [hempty]
    · rw [mergeHeaders_eq_ok]
      simp [hempty]
  have hverdict : ∀ merged : Table Text Value, reasonerSourceVerdict shown merged = .ok none ↔
      (∀ name entry, merged.get name = some entry → Passes shown (name, entry)) ∧
        ∃ name entry, merged.get name = some entry ∧ kindOf shown (name, entry) = .weight := by
    intro merged
    rw [reasonerSourceVerdict, verdict_eq_none_iff]
    simp only [Table.get_eq_some_iff, Prod.forall, Prod.exists]
  rw [assertReasonerSource, bind_eq_ok]
  constructor
  · rintro ⟨merged, hmerged, hassert⟩
    obtain ⟨hne, headers, hheaders, rfl⟩ := (hread _).mp hmerged
    refine ⟨hne, headers, hheaders, (hverdict _).mp ?_⟩
    split at hassert
    · cases hassert
    · assumption
    · cases hassert
  · rintro ⟨hne, headers, hheaders, hpasses⟩
    refine ⟨_, (hread _).mpr ⟨hne, headers, hheaders, rfl⟩, ?_⟩
    rw [(hverdict _).mpr hpasses]

end Headers

section Soundness

variable {ε : Type} (shown : Shown) (loads : Bytes → Except ε Value) (disk : Disk) (dir : Path)

-- No shard's own header has a quantized tensor that the reasoner keeps.
def Clean : Prop := ∀ path ∈ transformerShards disk dir, ∀ header, readShard loads disk path = .ok header →
  ∀ name entry, header.get name = some entry → isKept name = true →
    isSidecar name = false ∧ (isWeight name = true → ¬IsQuantized shown entry)

-- A quantized weight that a later shard gives another entry, in a source that is otherwise plain.
structure Masked : Prop where
  readable : ∀ path ∈ transformerShards disk dir, ∃ header, readShard loads disk path = .ok header
  bare : ∀ path ∈ transformerShards disk dir, ∀ header, readShard loads disk path = .ok header →
    ∀ name ∈ header.keys, isKept name = true → isSidecar name = false
  plain : ∀ name entry, IsKeptWeight name → lastEntry loads disk dir name = some entry →
    IsPlainEntry shown entry
  hidden : ∃ path ∈ transformerShards disk dir, ∃ header name entry, readShard loads disk path = .ok header ∧
    header.get name = some entry ∧ IsKeptWeight name ∧ IsQuantized shown entry

variable {shown loads disk dir}

theorem Masked.returns (h : Masked shown loads disk dir) :
    assertReasonerSource shown loads disk dir = .ok () := by
  obtain ⟨headers, hheaders⟩ := exists_forall₂ h.readable
  have hpasses : ∀ name entry, (mergedOf headers Table.empty).get name = some entry →
      Passes shown (name, entry) := by
    intro name entry hentry
    refine passes_iff.mpr fun hkept => ?_
    obtain ⟨header, hheader, own, hown⟩ := mem_mergedOf.mp ⟨entry, hentry⟩
    obtain ⟨path, hpath, hread⟩ := forall₂_left hheaders.flip header hheader
    have hbare := h.bare path hpath header hread name (Table.mem_keys_iff.mpr ⟨own, hown⟩) hkept
    refine ⟨hbare, fun hweight => h.plain name entry ⟨hkept, hbare, hweight⟩ ?_⟩
    rwa [← get_mergedOf_eq_lastEntry hheaders]
  obtain ⟨path, hpath, header, name, entry, hread, hentry, hweight, hquantized⟩ := h.hidden
  refine assertReasonerSource_eq_ok.mpr ⟨List.ne_nil_of_mem hpath, headers, hheaders, hpasses, name, ?_⟩
  obtain ⟨header', hheader', hread'⟩ := forall₂_left hheaders path hpath
  obtain rfl : header = header' := Except.ok.inj (hread.symm.trans hread')
  obtain ⟨last, hlast⟩ := mem_mergedOf.mpr ⟨header, hheader', entry, hentry⟩
  refine ⟨last, hlast, kindOf_eq_weight_iff.mpr ⟨hweight, h.plain name last hweight ?_⟩⟩
  rwa [← get_mergedOf_eq_lastEntry hheaders]

-- What the preflight lets through is clean, or it hides a quantized weight.
theorem clean_or_masked (h : assertReasonerSource shown loads disk dir = .ok ()) :
    Clean shown loads disk dir ∨ Masked shown loads disk dir := by
  obtain ⟨-, headers, hheaders, hpasses, -⟩ := assertReasonerSource_eq_ok.mp h
  have hown : ∀ path ∈ transformerShards disk dir, ∀ header, readShard loads disk path = .ok header →
      ∀ name entry, header.get name = some entry → ∃ last, (mergedOf headers Table.empty).get name = some last := by
    intro path hpath header hread name entry hentry
    obtain ⟨header', hheader', hread'⟩ := forall₂_left hheaders path hpath
    obtain rfl : header = header' := Except.ok.inj (hread.symm.trans hread')
    exact mem_mergedOf.mpr ⟨header, hheader', entry, hentry⟩
  have hbare : ∀ path ∈ transformerShards disk dir, ∀ header, readShard loads disk path = .ok header →
      ∀ name ∈ header.keys, isKept name = true → isSidecar name = false := by
    intro path hpath header hread name hname hkept
    obtain ⟨entry, hentry⟩ := Table.mem_keys_iff.mp hname
    obtain ⟨last, hlast⟩ := hown path hpath header hread name entry hentry
    exact (passes_iff.mp (hpasses name last hlast) hkept).1
  by_cases hhidden : ∃ path ∈ transformerShards disk dir, ∃ header name entry,
      readShard loads disk path = .ok header ∧ header.get name = some entry ∧ IsKeptWeight name ∧
        IsQuantized shown entry
  · refine .inr ⟨fun path hpath => ?_, hbare, fun name entry hweight hentry => ?_, hhidden⟩
    · obtain ⟨header, -, hread⟩ := forall₂_left hheaders path hpath
      exact ⟨header, hread⟩
    · rw [← get_mergedOf_eq_lastEntry hheaders] at hentry
      exact (passes_iff.mp (hpasses name entry hentry) hweight.1).2 hweight.2.2
  · refine .inl fun path hpath header hread name entry hentry hkept => ?_
    have hsidecar := hbare path hpath header hread name (Table.mem_keys_iff.mpr ⟨entry, hentry⟩) hkept
    exact ⟨hsidecar, fun hweight hquantized =>
      hhidden ⟨path, hpath, header, name, entry, hread, hentry, ⟨hkept, hsidecar, hweight⟩, hquantized⟩⟩

theorem Masked.not_clean (h : Masked shown loads disk dir) : ¬Clean shown loads disk dir := by
  obtain ⟨path, hpath, header, name, entry, hread, hentry, hweight, hquantized⟩ := h.hidden
  exact fun hclean => (hclean path hpath header hread name entry hentry hweight.1).2 hweight.2.2 hquantized

-- The preflight is sound where no later shard hides a quantized weight.
theorem assert_sound_iff : (assertReasonerSource shown loads disk dir = .ok () → Clean shown loads disk dir) ↔
    ¬Masked shown loads disk dir := by
  constructor
  · exact fun hsound hmasked => hmasked.not_clean (hsound hmasked.returns)
  · exact fun hmasked hreturns => (clean_or_masked hreturns).resolve_right hmasked

end Soundness

section Sample

-- A reader for headers without floats.
def headerReader : FloatReader := FloatText.ofFractions.unread

def headerLoads (bytes : Bytes) : Except Unit Value :=
  match loadsBytes headerReader bytes with
  | some value => .ok value
  | none => .error ()

def shardFile (header : String) : Bytes :=
  Wave.littleBytes 8 (ascii header).length ++ asciiBytes (ascii header)

def shardPath (name : String) : Path := transformerDir [ascii "nano"] ++ [ascii name]

-- The second shard has a tensor of the first one again.
def maskedDisk : Disk :=
  ((∅ : Disk).insert (shardPath "b.safetensors")
    (shardFile "\x7b\"norm.weight\":\x7b\"dtype\":\"BF16\"\x7d\x7d")).insert
      (shardPath "a.safetensors") (shardFile "\x7b\"norm.weight\":\x7b\"dtype\":\"F8_E4M3\"\x7d\x7d")

def isOk {ε α : Type} : Except ε α → Bool
  | .ok _ => true
  | .error _ => false

theorem eq_ok_of_isOk {ε : Type} {r : Except ε Unit} (h : isOk r = true) : r = .ok () := by
  cases r with
  | ok u => rfl
  | error error => cases h

section Evidence

variable {ε : Type} {shown : Shown} {loads : Bytes → Except ε Value} {disk : Disk} {dir : Path}

def holdsQuantized (shown : Shown) (loads : Bytes → Except ε Value) (disk : Disk) (path : Path)
    (name : Text) : Bool :=
  match readShard loads disk path with
  | .ok header =>
    match header.get name with
    | some (.dict fields) => dtypeOf shown fields ∈ QUANT_WEIGHT_DTYPES
    | _ => false
  | .error _ => false

theorem not_clean_of_holdsQuantized {path : Path} {name : Text} (hpath : path ∈ transformerShards disk dir)
    (hname : IsKeptWeight name) (h : holdsQuantized shown loads disk path name = true) :
    ¬Clean shown loads disk dir := by
  unfold holdsQuantized at h
  split at h
  · rename_i header hheader
    split at h
    · rename_i fields hfields
      have hquantized : IsQuantized shown (.dict fields) := by simpa [IsQuantized] using h
      exact fun hclean => (hclean path hpath header hheader name _ hfields hname.1).2 hname.2.2 hquantized
    · cases h
  · cases h

end Evidence

theorem later_shard_masks :
    ¬(assertReasonerSource .quoted headerLoads maskedDisk [ascii "nano"] = .ok () →
      Clean .quoted headerLoads maskedDisk [ascii "nano"]) := by
  have hok : isOk (assertReasonerSource .quoted headerLoads maskedDisk [ascii "nano"]) = true := by
    decide +kernel
  have hpath : shardPath "a.safetensors" ∈ transformerShards maskedDisk [ascii "nano"] := by
    decide +kernel
  have hname : IsKeptWeight (ascii "norm.weight") := by decide +kernel
  have hquantized : holdsQuantized .quoted headerLoads maskedDisk (shardPath "a.safetensors")
      (ascii "norm.weight") = true := by decide +kernel
  exact fun hsound => not_clean_of_holdsQuantized hpath hname hquantized (hsound (eq_ok_of_isOk hok))

end Sample

end Cosmos3.Preflight
