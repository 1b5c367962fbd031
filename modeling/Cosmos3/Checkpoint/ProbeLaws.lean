import Cosmos3.Basis.Encode
import Cosmos3.Checkpoint.Probe

namespace Cosmos3.Checkpoint

open Basis Basis.Python

section Reads

variable {floats : FloatReader} {sha : Bytes → Text} {disk disk' : Disk} {path path' : Path}

theorem readable_readJson {value : Value} (h : readJson floats disk path = .ok value) :
    Readable floats value := by
  obtain ⟨file, -, h⟩ := bind_eq_ok.mp h
  cases hloads : loadsBytes floats file with
  | none =>
      rw [hloads] at h
      cases h
  | some found =>
      rw [hloads] at h
      obtain rfl := Except.ok.inj h
      exact readable_loadsBytes hloads

theorem readHeader_congr (h : disk'.lookup path' = disk.lookup path) {header : Header} {n : Nat} :
    readHeader floats disk' path' = .ok (header, n) ↔ readHeader floats disk path = .ok (header, n) := by
  rw [readHeader_eq_ok, readHeader_eq_ok, h]

theorem hashed_keys {α : Type} {f : α → Except Failure Text} {fields : List (Text × α)}
    {digests : List (Text × Text)}
    (h : (fields.mapM fun field => (f field.2).map fun digest => (field.1, digest)) = .ok digests) :
    digests.map (·.1) = fields.map (·.1) := by
  refine map_eq_of_forall₂ (mapM_eq_ok.mp h) fun field digest hfield => ?_
  obtain ⟨value, -, rfl⟩ := map_eq_ok.mp hfield
  rfl

-- The hashes of a file are there when all its tensors are, one for each of them.
theorem hashAllTensors_ok (sha : Bytes → Text) {header : Header} {n : Nat}
    (hread : readHeader floats disk path = .ok (header, n)) :
    (∀ table, hashAllTensors floats sha disk path = .ok table →
      (∀ name, name ∈ table.keys ↔ name ∈ header.keys) ∧
        ∀ name entry, header.get name = some entry → ∃ bytes,
          tensorBytes disk path (dataStart n) entry = some bytes ∧ table.get name = some (sha bytes)) ∧
      ((∀ name entry, header.get name = some entry →
          ∃ bytes, tensorBytes disk path (dataStart n) entry = some bytes) →
        ∃ table, hashAllTensors floats sha disk path = .ok table) := by
  refine ⟨fun table h => ?_, fun hall => ?_⟩
  · obtain ⟨read, hread', h⟩ := bind_eq_ok.mp h
    obtain rfl := Except.ok.inj (hread.symm.trans hread')
    obtain ⟨digests, hdigests, h⟩ := bind_eq_ok.mp h
    obtain rfl := Except.ok.inj h
    refine ⟨fun name => ?_, fun name entry hentry => ?_⟩
    · rw [Table.mem_keys_setAll, hashed_keys hdigests]
      exact or_iff_right List.not_mem_nil
    · have hname : name ∈ header.fields.map (·.1) := Table.mem_keys_iff.mpr ⟨entry, hentry⟩
      obtain ⟨entry', digest, hmem, hdigest, hget⟩ := hashed_get hdigests hname
      obtain rfl := Option.some.inj (hentry.symm.trans (Table.get_eq_some_iff.mpr hmem))
      obtain ⟨bytes, hbytes, rfl⟩ := hashTensor_eq_ok.mp hdigest
      exact ⟨bytes, hbytes, hget⟩
  · obtain ⟨digests, hdigests⟩ : ∃ digests,
        hashFields sha disk path (dataStart n) header.fields = .ok digests := by
      refine mapM_returns fun field hfield => ?_
      obtain ⟨bytes, hbytes⟩ := hall field.1 field.2 (Table.get_eq_some_iff.mpr hfield)
      exact ⟨_, map_eq_ok.mpr ⟨sha bytes, hashTensor_eq_ok.mpr ⟨bytes, hbytes, rfl⟩, rfl⟩⟩
    exact ⟨_, bind_eq_ok.mpr ⟨(header, n), hread, bind_eq_ok.mpr ⟨digests, hdigests, rfl⟩⟩⟩

end Reads

section Shards

variable {floats : FloatReader} {disk disk' : Disk} {st : Path}

theorem pathLe_antisymm {first second : Path} (h : pathLe first second) (h' : pathLe second first) :
    first = second :=
  List.map_injective_iff.mpr codePoints_injective (le_antisymm h h')

instance : Std.Antisymm pathLe := ⟨fun _ _ => pathLe_antisymm⟩

instance : Std.Total pathLe := ⟨fun _ _ => le_total _ _⟩

instance : IsTrans Path pathLe := ⟨fun _ _ _ => le_trans⟩

-- The shards are the same if the same files of such a name are there.
theorem shards_congr {dir : Path} (h : ∀ path, ascii ".safetensors" <:+ nameOf path →
    (path ∈ disk' ↔ path ∈ disk)) : shards disk' dir = shards disk dir := by
  refine List.Perm.eq_of_pairwise' (List.pairwise_insertionSort pathLe _)
    (List.pairwise_insertionSort pathLe _) ?_
  refine (List.perm_ext_iff_of_nodup ?_ ?_).mpr fun path => ?_
  · exact (List.perm_insertionSort pathLe _).nodup_iff.mpr (disk'.keys_nodup.filter _)
  · exact (List.perm_insertionSort pathLe _).nodup_iff.mpr (disk.keys_nodup.filter _)
  · show path ∈ shards disk' dir ↔ path ∈ shards disk dir
    rw [mem_shards, mem_shards]
    constructor
    · rintro ⟨hmem, hdir, hne, hname⟩
      exact ⟨(h path hname).mp hmem, hdir, hne, hname⟩
    · rintro ⟨hmem, hdir, hne, hname⟩
      exact ⟨(h path hname).mpr hmem, hdir, hne, hname⟩

-- Only one file of the source may have changed: the transformer, where the source is the
-- checkpoint itself. Then the new transformer is the first that has the name, unless an
-- earlier shard has it.
theorem firstWith_changed {list : List Path} {new : Header} {n : Nat} {name : Text} {entry : Entry}
    {source : Source} (hsame : ∀ shard ∈ list, shard ≠ st → disk'.lookup shard = disk.lookup shard)
    (hnew : readHeader floats disk' st = .ok (new, n)) (hentry : new.get name = some entry)
    (h : firstWith floats disk name list = some source) :
    (firstWith floats disk' name list = some source ∧ source.shard ≠ st) ∨
      (firstWith floats disk' name list = some ⟨st, dataStart n, entry⟩ ∧
        ∀ old m before, readHeader floats disk st = .ok (old, m) → old.get name = some before →
          source = ⟨st, dataStart m, before⟩) := by
  induction list with
  | nil => cases h
  | cons shard list ih =>
      by_cases hshard : shard = st
      · subst hshard
        refine .inr ⟨by simp only [firstWith, hnew, hentry], fun old m before hold hbefore => ?_⟩
        simp only [firstWith, hold, hbefore] at h
        exact (Option.some.inj h).symm
      · have hlookup := hsame shard List.mem_cons_self hshard
        cases hread : readHeader floats disk shard with
        | error e =>
            simp only [firstWith, hread] at h
            cases h
        | ok read =>
            obtain ⟨header, m⟩ := read
            have hread' : readHeader floats disk' shard = .ok (header, m) :=
              (readHeader_congr hlookup).mpr hread
            cases hget : header.get name with
            | some found =>
                simp only [firstWith, hread, hget] at h
                obtain rfl := Option.some.inj h
                exact .inl ⟨by simp only [firstWith, hread', hget], hshard⟩
            | none =>
                simp only [firstWith, hread, hget] at h
                simpa only [firstWith, hread', hget] using
                  ih (fun other hother => hsame other (List.mem_cons_of_mem _ hother)) h

end Shards

section Checks

variable {arith : FloatArith} {header : Header}

-- The shapes do not depend on the key that the mutation sets.
theorem expectedShapes_newConfig (cfg : Dict) :
    expectedShapes arith (.dict (newConfig cfg)) = expectedShapes arith (.dict cfg) := by
  have hitem : ∀ key, key ≠ ascii "action_gen" → item (newConfig cfg) key = item cfg key := by
    intro key hne
    rw [item, newConfig, Dict.get_set_of_ne cfg hne, item]
  simp only [expectedShapes, asDict, bind, Except.bind, hitem (ascii "hidden_size") (by decide),
    hitem (ascii "action_dim") (by decide), hitem (ascii "num_embodiment_domains") (by decide),
    hitem (ascii "vocab_size") (by decide)]

theorem checkActionSet_eq_nil {cfg : Value} {expected : Table Text (List Value)}
    (hexpected : expectedShapes arith cfg = .ok expected) :
    checkActionSet arith header cfg = .ok [] ↔ ∀ name ∈ ACTION_TENSORS, ∃ entry,
      header.get name = some entry ∧ entry.dtype = bf16 ∧
        eqShape entry.shape ((expected.get name).getD []) = true := by
  have hresult : checkActionSet arith header cfg =
      .ok (ACTION_TENSORS.flatMap (actionProblems expected header)) := by
    rw [checkActionSet, hexpected]
    rfl
  rw [hresult, Except.ok.injEq, List.flatMap_eq_nil_iff]
  refine forall₂_congr fun name _ => ?_
  rw [actionProblems]
  cases header.get name with
  | none => simp
  | some entry => simp [List.append_eq_nil_iff]

-- The names that the count is about.
def f8Names (header : Header) : List Text := (header.fields.filter isF8Weight).map (·.1)

theorem length_f8Names (header : Header) : (f8Names header).length = f8WeightCount header :=
  List.length_map _

theorem nodup_f8Names (header : Header) : (f8Names header).Nodup :=
  header.nodup.sublist (List.filter_sublist.map _)

theorem mem_f8Names {name : Text} : name ∈ f8Names header ↔
    (ascii ".weight").isSuffixOf name = true ∧ ∃ entry, header.get name = some entry ∧ entry.dtype = FP8 := by
  rw [f8Names, List.mem_map]
  constructor
  · rintro ⟨⟨name', entry⟩, hfield, rfl⟩
    obtain ⟨hmem, hweight⟩ := List.mem_filter.mp hfield
    rw [isF8Weight, Bool.and_eq_true, decide_eq_true_eq] at hweight
    exact ⟨hweight.1, entry, Table.get_eq_some_iff.mpr hmem, hweight.2⟩
  · rintro ⟨hsuffix, entry, hentry, hdtype⟩
    refine ⟨(name, entry), List.mem_filter.mpr ⟨Table.get_eq_some_iff.mp hentry, ?_⟩, rfl⟩
    rw [isF8Weight, hsuffix, Bool.true_and, decide_eq_true_eq]
    exact hdtype

-- The count goes down by one where one name leaves.
theorem f8WeightCount_eq {old new : Header} {name : Text}
    (h : ∀ other, other ∈ f8Names new ↔ other ≠ name ∧ other ∈ f8Names old) :
    f8WeightCount old = f8WeightCount new + if name ∈ f8Names old then 1 else 0 := by
  have hperm : (f8Names new).Perm ((f8Names old).erase name) := by
    refine (List.perm_ext_iff_of_nodup (nodup_f8Names new) ((nodup_f8Names old).erase name)).mpr ?_
    intro other
    rw [h, (nodup_f8Names old).mem_erase_iff]
  rw [← length_f8Names, ← length_f8Names, hperm.length_eq, List.length_erase]
  split_ifs with hmem
  · have hpos := List.length_pos_of_mem hmem
    omega
  · omega

theorem keptProblems_eq_nil {post : Table Text Text} {field : Text × Text} :
    keptProblems post field = [] ↔ (field.1 ∉ DROPPED_LMHEAD → post.get field.1 = some field.2) := by
  unfold keptProblems
  by_cases hdropped : field.1 ∈ DROPPED_LMHEAD
  · simp [hdropped]
  · cases hget : post.get field.1 with
    | none => simp [hdropped]
    | some digest => by_cases heq : digest = field.2 <;> simp [hdropped, heq]

theorem checkScopedByteIdentity_eq_nil {pre post : Table Text Text} :
    checkScopedByteIdentity pre post = [] ↔
      (∀ name digest, name ∉ DROPPED_LMHEAD → pre.get name = some digest → post.get name = some digest) ∧
        lmHeadAmax ∉ post.keys ∧ lmHeadScale ∉ post.keys ∧ ∀ name ∈ ADDED_TENSORS, name ∈ post.keys := by
  have hsuffixes : ∀ name ∈ DROPPED_LMHEAD,
      ((ascii "._amax").isSuffixOf name || (ascii "._scale").isSuffixOf name) = true ↔ name ≠ lmHead := by
    decide
  rw [checkScopedByteIdentity, List.append_eq_nil_iff, List.append_eq_nil_iff, List.flatMap_eq_nil_iff,
    List.flatMap_eq_nil_iff, List.flatMap_eq_nil_iff, and_assoc]
  refine and_congr ?_ (Iff.trans (and_congr ?_ ?_) and_assoc)
  · constructor
    · exact fun h name digest hname hget =>
        keptProblems_eq_nil.mp (h _ (Table.get_eq_some_iff.mp hget)) hname
    · exact fun h field hfield =>
        keptProblems_eq_nil.mpr fun hname => h field.1 field.2 hname (Table.get_eq_some_iff.mpr hfield)
  · have hone : ∀ name ∈ DROPPED_LMHEAD, (if ((ascii "._amax").isSuffixOf name ||
        (ascii "._scale").isSuffixOf name) && name ∈ post.keys then [Problem.sidecarPresent name] else []) = [] ↔
          (name ≠ lmHead → name ∉ post.keys) := by
      intro name hname
      have hiff := hsuffixes name hname
      by_cases hne : name = lmHead
      · simp [hne, show ¬((ascii "._amax").isSuffixOf lmHead || (ascii "._scale").isSuffixOf lmHead) = true
          by decide]
      · simp [hiff.mpr hne, hne]
    constructor
    · intro h
      exact ⟨(hone lmHeadAmax (by decide)).mp (h _ (by decide)) (by decide),
        (hone lmHeadScale (by decide)).mp (h _ (by decide)) (by decide)⟩
    · rintro ⟨hamax, hscale⟩ name hname
      refine (hone name hname).mpr fun hne => ?_
      rcases List.mem_cons.mp hname with rfl | hname
      · exact absurd rfl hne
      · rcases List.mem_cons.mp hname with rfl | hname
        · exact hamax
        · rw [List.mem_singleton.mp hname]
          exact hscale
  · simp

theorem checkSourceIdentity_eq_nil {post source : Table Text Text} :
    checkSourceIdentity post source = [] ↔
      ∀ name ∈ ADDED_TENSORS, ∃ digest, source.get name = some digest ∧ post.get name = some digest := by
  rw [checkSourceIdentity, List.flatMap_eq_nil_iff]
  refine forall₂_congr fun name _ => ?_
  cases source.get name with
  | none => simp
  | some digest => by_cases heq : post.get name = some digest <;> simp [heq]

end Checks

end Cosmos3.Checkpoint
