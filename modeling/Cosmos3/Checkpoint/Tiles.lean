import Cosmos3.Checkpoint.Fidelity

namespace Cosmos3.Checkpoint

open Basis Basis.Python

section Blocks

variable (entries : Header) (source : Text → Except Failure Entry)

-- The named blocks lie one behind the other, from a position up to another one, and each
-- is as long as the tensor that it is made from.
def TilesFrom : Nat → List Text → Nat → Prop
  | pos, [], stop => pos = stop
  | pos, name :: rest, stop => ∃ entry src, entries.get name = some entry ∧ source name = .ok src ∧
      entry.start = pos ∧ entry.size = src.size ∧ TilesFrom entry.stop rest stop

variable {entries source}

theorem tilesFrom_place {sources : List (Text × Entry)} {pos : Nat}
    (hentries : ∀ field ∈ place pos sources, entries.get field.1 = some field.2)
    (hsources : ∀ field ∈ sources, source field.1 = .ok field.2) :
    TilesFrom entries source pos (sources.map (·.1)) (pos + (sources.map fun field => field.2.size).sum) := by
  induction sources generalizing pos with
  | nil => exact (Nat.add_zero pos).symm
  | cons field sources ih =>
      obtain ⟨name, src⟩ := field
      obtain ⟨hentry, hplaced⟩ := List.forall_mem_cons.mp hentries
      obtain ⟨hsource, hrest⟩ := List.forall_mem_cons.mp hsources
      have htail := ih hplaced hrest
      rw [Nat.add_assoc] at htail
      exact ⟨_, src, hentry, hsource, rfl, Nat.add_sub_cancel_left pos src.size, htail⟩

end Blocks

section Tiles

variable {arith : FloatArith} {order : SetOrder} {fp8 : Header} {bf16Src : Table Text Entry} {cfg : Value}
  {plan : MutationPlan} {layout : Layout}

-- What makes the data block a valid one: every tensor has one place in it, and the places
-- leave no gap.
structure Tiles (fp8 : Header) (bf16Src : Table Text Entry) (plan : MutationPlan) (layout : Layout) : Prop where
  once : layout.order.Nodup
  names : ∀ name, name ∈ layout.order ↔ name ∈ plan.keep ∨ name ∈ plan.add
  blocks : TilesFrom layout.entries (sourceEntry plan fp8 bf16Src) 0 layout.order layout.dataLen

-- Each name that the planner hands over has a source, so that only a header too large to
-- write stops the layout.
theorem buildLayout_returns (h : planMutation arith order fp8 bf16Src cfg = .ok plan) :
    (∃ layout, buildLayout arith plan fp8 bf16Src = .ok layout) ∨
      buildLayout arith plan fp8 bf16Src = .error .structError := by
  have hplan := planMutation_ok h
  have hsource : ∀ name ∈ keptOrdered plan fp8 ++ plan.add, ∃ field,
      ((sourceEntry plan fp8 bf16Src name).map fun src => (name, src)) = .ok field := by
    intro name hname
    unfold sourceEntry
    by_cases hkept : name ∈ fp8.keys ∧ name ∈ plan.keep
    · obtain ⟨entry, hentry⟩ := Table.mem_keys_iff.mp hkept.1
      rw [if_pos hkept, hentry]
      exact ⟨_, rfl⟩
    · have hadded : name ∈ ADDED_TENSORS := by
        rcases List.mem_append.mp hname with hname | hname
        · have hkeep := mem_keptOrdered.mp hname
          exact absurd ⟨((hplan.keep name).mp hkeep).1, hkeep⟩ hkept
        · exact hplan.add ▸ hname
      obtain ⟨expected, -, hsources⟩ := hplan.sources
      obtain ⟨ref, shape, href, -⟩ := hsources name hadded
      rw [if_neg hkept, href]
      exact ⟨_, rfl⟩
  obtain ⟨sources, hsources⟩ := mapM_returns hsource
  rw [buildLayout]
  simp only [bind, Except.bind, hsources]
  split
  · exact .inr rfl
  · exact .inl ⟨_, rfl⟩

theorem disjoint_of_absent (hplan : Planned arith fp8 bf16Src cfg plan)
    (habsent : ∀ name ∈ ACTION_TENSORS, name ∉ fp8.keys) {name : Text} (hkeep : name ∈ plan.keep) :
    name ∉ plan.add := by
  rw [hplan.add, ADDED_TENSORS, List.mem_append, List.mem_singleton]
  obtain ⟨hkey, hdropped⟩ := (hplan.keep name).mp hkeep
  rintro (haction | rfl)
  · exact habsent name haction hkey
  · exact hdropped (by decide)

theorem entries_get_place {sources : List (Text × Entry)} (hentries : layout.entries = Table.empty.setAll (place 0 sources))
    (hnodup : (sources.map (·.1)).Nodup) : ∀ field ∈ place 0 sources, layout.entries.get field.1 = some field.2 := by
  intro field hfield
  have hkeys : (place 0 sources).map (·.1) = sources.map (·.1) := map_place 0 sources
  have hkey : field.1 ∈ layout.entries.keys := by
    rw [hentries, Table.mem_keys_setAll]
    exact .inr (List.mem_map_of_mem hfield)
  obtain ⟨entry, hget⟩ := Table.mem_keys_iff.mp hkey
  have hplaced : (field.1, entry) ∈ place 0 sources :=
    (Table.get_setAll (hentries ▸ hget)).resolve_left (by simp)
  have hsame : field = (field.1, entry) :=
    List.inj_on_of_nodup_map (hkeys ▸ hnodup) hfield hplaced rfl
  rw [hget, hsame]

-- The layout is valid unless the old file has an action tensor already: it is kept and
-- added then, and its first place belongs to no entry.
theorem tiles_iff (hplan : planMutation arith order fp8 bf16Src cfg = .ok plan)
    (hlayout : buildLayout arith plan fp8 bf16Src = .ok layout) :
    Tiles fp8 bf16Src plan layout ↔ ∀ name ∈ ACTION_TENSORS, name ∉ fp8.keys := by
  have hplan := planMutation_ok hplan
  obtain ⟨sources, -, horder, hentries, hsources, -, hlength⟩ := buildLayout_ok hlayout
  constructor
  · intro htiles name haction hkey
    have hkeep : name ∈ plan.keep := (hplan.keep name).mpr ⟨hkey, notMem_dropped_of_action haction⟩
    have hadd : name ∈ plan.add := hplan.add ▸ List.mem_append_left _ haction
    have hdisjoint := (List.nodup_append'.mp (horder ▸ htiles.once)).2.2
    exact hdisjoint (mem_keptOrdered.mpr hkeep) hadd
  · intro habsent
    have hkept : (keptOrdered plan fp8).Nodup := (List.perm_insertionSort _ _).nodup_iff.mpr hplan.nodup
    have hnodup : layout.order.Nodup := by
      rw [horder]
      refine List.nodup_append'.mpr ⟨hkept, hplan.add ▸ nodup_added, fun name hname => ?_⟩
      exact disjoint_of_absent hplan habsent (mem_keptOrdered.mp hname)
    have hnames : sources.map (·.1) = layout.order := by
      rw [map_eq_of_forall₂ (f := id) hsources fun name source h => h.1, List.map_id]
    refine ⟨hnodup, fun name => ?_, ?_⟩
    · rw [horder, List.mem_append, mem_keptOrdered]
    · have hfound : ∀ field ∈ sources, sourceEntry plan fp8 bf16Src field.1 = .ok field.2 := by
        intro field hfield
        obtain ⟨name, -, rfl, hsource⟩ := exists_of_mem_right hsources hfield
        exact hsource
      have htiles := tilesFrom_place (entries_get_place hentries (hnames ▸ hnodup)) hfound
      rw [hnames, Nat.zero_add, ← hlength] at htiles
      exact htiles

end Tiles

section Sample

-- The old file of a checkpoint that has one of the action tensors already.
def oneByte (dtype : Text) (shape : List ℕ) (start : ℕ) : Entry := ⟨dtype, shape, start, start + 1, Nat.le_succ start⟩

def sampleHeld : Header :=
  ⟨[(ascii "embed_tokens.weight", oneByte bf16 [1] 0), (ascii "action_modality_embed", oneByte bf16 [1] 1),
    (lmHead, oneByte (ascii "F8_E4M3") [1, 1] 2)], by decide⟩

def sampleHeldPlan : MutationPlan :=
  ⟨[ascii "embed_tokens.weight", ascii "action_modality_embed"], [lmHead], ADDED_TENSORS⟩

theorem sampleHeld_plan :
    planMutation sampleArith sampleOrder sampleHeld sampleShard (.dict sampleConfig) = .ok sampleHeldPlan :=
  rfl

theorem toOption_eq_some {ε α : Type} {result : Except ε α} (h : result.toOption.isSome = true) :
    ∃ a, result = .ok a := by
  cases result with
  | ok a => exact ⟨a, rfl⟩
  | error e => cases h

theorem sampleHeld_layout :
    ∃ layout, buildLayout sampleArith sampleHeldPlan sampleHeld sampleShard = .ok layout :=
  toOption_eq_some (by decide +kernel)

theorem tiles_iff_sampleOld : ∃ layout,
    buildLayout sampleArith samplePlan (sampleOld (ascii "F8_E4M3")) sampleShard = .ok layout ∧
      Tiles (sampleOld (ascii "F8_E4M3")) sampleShard samplePlan layout := by
  obtain ⟨layout, hlayout⟩ := toOption_eq_some (sample_layout (.inl rfl))
  refine ⟨layout, hlayout, (tiles_iff (sample_plan (ascii "F8_E4M3")) hlayout).mpr ?_⟩
  decide

theorem held_tensor_placed_twice : ∃ layout,
    planMutation sampleArith sampleOrder sampleHeld sampleShard (.dict sampleConfig) = .ok sampleHeldPlan ∧
      buildLayout sampleArith sampleHeldPlan sampleHeld sampleShard = .ok layout ∧
      layout.order.count (ascii "action_modality_embed") = 2 ∧
      ¬Tiles sampleHeld sampleShard sampleHeldPlan layout := by
  obtain ⟨layout, hlayout⟩ := sampleHeld_layout
  obtain ⟨-, -, horder, -⟩ := buildLayout_ok hlayout
  have hcount : layout.order.count (ascii "action_modality_embed") = 2 := by
    rw [horder]
    decide
  refine ⟨layout, sampleHeld_plan, hlayout, hcount, fun htiles => ?_⟩
  have honce := List.nodup_iff_count_le_one.mp htiles.once (ascii "action_modality_embed")
  omega

end Sample

end Cosmos3.Checkpoint
