import Cosmos3.Checkpoint.Applied

namespace Cosmos3.Checkpoint

open Basis Basis.Python

section Hashed

-- A dict of hashes has one for each name, and it is the hash of an entry of that name.
theorem hashed_get {α : Type} {f : α → Except Failure Text} {fields : List (Text × α)}
    {digests : List (Text × Text)}
    (h : (fields.mapM fun field => (f field.2).map fun digest => (field.1, digest)) = .ok digests)
    {name : Text} (hname : name ∈ fields.map (·.1)) :
    ∃ a digest, (name, a) ∈ fields ∧ f a = .ok digest ∧
      (Table.empty.setAll digests).get name = some digest := by
  have hall := mapM_eq_ok.mp h
  have hkeys : digests.map (·.1) = fields.map (·.1) := by
    refine map_eq_of_forall₂ hall fun field digest hfield => ?_
    obtain ⟨value, -, rfl⟩ := map_eq_ok.mp hfield
    rfl
  obtain ⟨digest, hget⟩ := Table.mem_keys_iff.mp
    (Table.mem_keys_setAll (t := Table.empty).mpr (.inr (hkeys ▸ hname)))
  obtain ⟨field, hfield, hmap⟩ := exists_of_mem_right hall ((Table.get_setAll hget).resolve_left (by simp))
  obtain ⟨digest', hdigest, heq⟩ := map_eq_ok.mp hmap
  obtain ⟨rfl, rfl⟩ := Prod.mk.inj heq
  exact ⟨field.2, digest', hfield, hdigest, hget⟩

end Hashed

section Prepare

variable {arith : FloatArith} {sha : Bytes → Text} {order : SetOrder} {ck src : Path} {disk : Disk}
  {p : Prepared}

-- What the first half has read and decided when it has not failed.
structure Prepares (arith : FloatArith) (sha : Bytes → Text) (ck src : Path) (disk : Disk)
    (p : Prepared) : Prop where
  config : readJson arith.toFloatReader disk (Target.config.path ck) = .ok p.config
  header : ∃ n, readHeader arith.toFloatReader disk (Target.st.path ck) = .ok (p.header, n) ∧
    p.start = dataStart n
  srcmap : resolveSourceTensors arith.toFloatReader disk (transformerDir src) ADDED_TENSORS = .ok p.srcmap
  plan : Planned arith p.header (p.srcmap.map (·.entry)) p.config p.plan
  layout : buildLayout arith p.plan p.header (p.srcmap.map (·.entry)) = .ok p.layout
  kept : ∀ name ∈ p.plan.keep, ∃ entry bytes, p.header.get name = some entry ∧
    tensorBytes disk (Target.st.path ck) p.start entry = some bytes ∧
    p.preHashes.get name = some (sha bytes)
  added : ∀ name ∈ ADDED_TENSORS, ∃ source bytes, p.srcmap.get name = some source ∧
    tensorBytes disk source.shard source.start source.entry = some bytes ∧
    p.srcHashes.get name = some (sha bytes)

theorem prepare_ok (h : prepare arith sha order ck src disk = .ok p) : Prepares arith sha ck src disk p := by
  obtain ⟨config, hconfig, h⟩ := bind_eq_ok.mp h
  obtain ⟨⟨header, n⟩, hheader, h⟩ := bind_eq_ok.mp h
  obtain ⟨srcmap, hsrcmap, h⟩ := bind_eq_ok.mp h
  obtain ⟨plan, hplan, h⟩ := bind_eq_ok.mp h
  obtain ⟨layout, hlayout, h⟩ := bind_eq_ok.mp h
  obtain ⟨kept, hkept, h⟩ := bind_eq_ok.mp h
  obtain ⟨preHashes, hpre, h⟩ := bind_eq_ok.mp h
  obtain ⟨srcHashes, hsrc, h⟩ := bind_eq_ok.mp h
  obtain rfl := Except.ok.inj h
  have hkeptAll := mapM_eq_ok.mp hkept
  have hentries : ∀ name entry, (name, entry) ∈ kept → header.get name = some entry := by
    intro name entry hmem
    obtain ⟨name', -, hfound⟩ := exists_of_mem_right hkeptAll hmem
    split at hfound
    · rename_i hget
      cases hfound
      exact hget
    · cases hfound
  have hnames : kept.map (·.1) = plan.keep := by
    rw [← List.map_id plan.keep]
    refine map_eq_of_forall₂ hkeptAll fun name field hfield => ?_
    split at hfield
    · cases hfield
      rfl
    · cases hfield
  refine ⟨hconfig, ⟨n, hheader, rfl⟩, hsrcmap, planMutation_ok hplan, hlayout, fun name hname => ?_,
    fun name hname => ?_⟩
  · obtain ⟨entry, digest, hmem, hdigest, hget⟩ := hashed_get hpre (hnames ▸ hname)
    obtain ⟨bytes, hbytes, rfl⟩ := hashTensor_eq_ok.mp hdigest
    exact ⟨entry, bytes, hentries name entry hmem, hbytes, hget⟩
  · obtain ⟨source, hsource, -⟩ := resolve_get hsrcmap hname
    have hkey : name ∈ srcmap.fields.map (·.1) := Table.mem_keys_iff.mpr ⟨source, hsource⟩
    obtain ⟨source', digest, hmem, hdigest, hget⟩ :=
      hashed_get (f := fun s : Source => hashTensor sha disk s.shard s.start s.entry) hsrc hkey
    obtain rfl := Option.some.inj (hsource.symm.trans (Table.get_eq_some_iff.mpr hmem))
    obtain ⟨bytes, hbytes, rfl⟩ := hashTensor_eq_ok.mp hdigest
    exact ⟨source, bytes, hsource, hbytes, hget⟩

theorem mapM_returns {α β : Type} {f : α → Except Failure β} {as : List α} (h : ∀ a ∈ as, ∃ b, f a = .ok b) :
    ∃ bs, as.mapM f = .ok bs := by
  obtain ⟨bs, hbs⟩ := exists_forall₂ h
  exact ⟨bs, mapM_eq_ok.mpr hbs⟩

-- When the first half does not fail.
def keptEntry (header : Header) (name : Text) : Except Failure (Text × Entry) :=
  match header.get name with
  | some entry => .ok (name, entry)
  | none => .error (.python .keyError)

theorem prepare_returns {config : Value} {header : Header} {n : Nat} {srcmap : Table Text Source}
    {plan : MutationPlan} {layout : Layout}
    (hconfig : readJson arith.toFloatReader disk (Target.config.path ck) = .ok config)
    (hheader : readHeader arith.toFloatReader disk (Target.st.path ck) = .ok (header, n))
    (hsrcmap : resolveSourceTensors arith.toFloatReader disk (transformerDir src) ADDED_TENSORS = .ok srcmap)
    (hplan : planMutation arith order header (srcmap.map (·.entry)) config = .ok plan)
    (hlayout : buildLayout arith plan header (srcmap.map (·.entry)) = .ok layout)
    (hkept : ∀ name ∈ plan.keep, ∀ entry, header.get name = some entry →
      ∃ bytes, tensorBytes disk (Target.st.path ck) (dataStart n) entry = some bytes)
    (hadded : ∀ field ∈ srcmap.fields,
      ∃ bytes, tensorBytes disk field.2.shard field.2.start field.2.entry = some bytes) :
    ∃ p, prepare arith sha order ck src disk = .ok p ∧ p.header = header ∧ p.start = dataStart n ∧
      p.srcmap = srcmap ∧ p.plan = plan := by
  have hkeys := (planMutation_ok hplan).keep
  have hentry : ∀ name ∈ plan.keep, ∃ entry, header.get name = some entry :=
    fun name hname => Table.mem_keys_iff.mp ((hkeys name).mp hname).1
  obtain ⟨kept, hmap⟩ : ∃ kept, plan.keep.mapM (keptEntry header) = .ok kept := by
    refine mapM_returns fun name hname => ?_
    obtain ⟨entry, hget⟩ := hentry name hname
    exact ⟨(name, entry), by rw [keptEntry, hget]⟩
  obtain ⟨preHashes, hpre⟩ : ∃ preHashes,
      hashFields sha disk (Target.st.path ck) (dataStart n) kept = .ok preHashes := by
    refine mapM_returns fun field hfield => ?_
    obtain ⟨name, hname, hfound⟩ := exists_of_mem_right (mapM_eq_ok.mp hmap) hfield
    obtain ⟨entry, hget⟩ := hentry name hname
    rw [keptEntry, hget] at hfound
    cases hfound
    obtain ⟨bytes, hbytes⟩ := hkept name hname entry hget
    exact ⟨_, map_eq_ok.mpr ⟨sha bytes, hashTensor_eq_ok.mpr ⟨bytes, hbytes, rfl⟩, rfl⟩⟩
  obtain ⟨srcHashes, hsrc⟩ : ∃ srcHashes, (srcmap.fields.mapM fun field =>
      (hashTensor sha disk field.2.shard field.2.start field.2.entry).map fun digest => (field.1, digest)) =
        .ok srcHashes := by
    refine mapM_returns fun field hfield => ?_
    obtain ⟨bytes, hbytes⟩ := hadded field hfield
    exact ⟨_, map_eq_ok.mpr ⟨sha bytes, hashTensor_eq_ok.mpr ⟨bytes, hbytes, rfl⟩, rfl⟩⟩
  refine ⟨_, bind_eq_ok.mpr ⟨config, hconfig, bind_eq_ok.mpr ⟨(header, n), hheader, bind_eq_ok.mpr
    ⟨srcmap, hsrcmap, bind_eq_ok.mpr ⟨plan, hplan, bind_eq_ok.mpr ⟨layout, hlayout, bind_eq_ok.mpr
      ⟨kept, hmap, bind_eq_ok.mpr ⟨preHashes, hpre, bind_eq_ok.mpr ⟨srcHashes, hsrc, rfl⟩⟩⟩⟩⟩⟩⟩⟩,
    rfl, rfl, rfl, rfl⟩

variable (hp : Prepares arith sha ck src disk p)

include hp

theorem Prepares.keep_keys : ∀ name ∈ p.plan.keep, name ∈ p.header.keys :=
  fun name hname => ((hp.plan.keep name).mp hname).1

theorem Prepares.metadataKey_notMem : metadataKey ∉ p.layout.entries.keys := by
  obtain ⟨n, hread, -⟩ := hp.header
  obtain ⟨file, -, hfile⟩ := bind_eq_ok.mp hread
  have hheader : metadataKey ∉ p.header.keys := by
    split at hfile
    · rename_i found hfound
      obtain rfl := Except.ok.inj hfile
      exact metadataKey_notMem_of_read hfound
    · cases hfile
  rw [mem_layout_keys hp.layout, hp.plan.add]
  rintro (hkept | hadded)
  · exact hheader (hp.keep_keys _ hkept)
  · exact metadataKey_notMem_added hadded

-- The names of the new file: those that are kept and those that are added.
theorem Prepares.mem_keys {name : Text} :
    name ∈ p.layout.entries.keys ↔ name ∈ p.plan.keep ∨ name ∈ ADDED_TENSORS := by
  rw [mem_layout_keys hp.layout, hp.plan.add]

theorem Prepares.source_ne_tmp {name : Text} {source : Source}
    (hsource : origin (Target.st.path ck) p.start p.header p.plan p.srcmap name = .ok source)
    (hname : name ∈ p.plan.keep ∨ name ∈ ADDED_TENSORS) : source.shard ≠ tmpPath ck := by
  unfold origin at hsource
  split_ifs at hsource with hkept
  · split at hsource
    · cases hsource
      exact Target.st.path_ne_tmp ck
    · cases hsource
  · split at hsource
    · rename_i found hfound
      cases hsource
      obtain ⟨source', hget, hfirst⟩ := resolve_get hp.srcmap (hname.resolve_left hkept)
      obtain rfl := Option.some.inj (hfound.symm.trans hget)
      exact shard_ne_tmp (firstWith_mem hfirst).1
    · cases hsource

-- Every name of the order has a block.
theorem Prepares.exists_block {name : Text} (hname : name ∈ p.plan.keep ∨ name ∈ ADDED_TENSORS) :
    ∃ block, IsBlock (Target.st.path ck) p.start p.header p.plan p.srcmap disk name block := by
  unfold IsBlock origin
  by_cases hkept : name ∈ p.plan.keep
  · obtain ⟨entry, bytes, hentry, hbytes, -⟩ := hp.kept name hkept
    exact ⟨bytes, ⟨Target.st.path ck, p.start, entry⟩, by rw [if_pos hkept, hentry], hbytes⟩
  · obtain ⟨source, bytes, hsource, hbytes, -⟩ := hp.added name (hname.resolve_left hkept)
    exact ⟨bytes, source, by rw [if_neg hkept, hsource], hbytes⟩

theorem Prepares.mem_order {name : Text} (hname : name ∈ p.layout.order) :
    name ∈ p.plan.keep ∨ name ∈ ADDED_TENSORS := by
  obtain ⟨-, -, horder, -⟩ := buildLayout_ok hp.layout
  rw [horder, List.mem_append, mem_keptOrdered, hp.plan.add] at hname
  exact hname

end Prepare

end Cosmos3.Checkpoint
