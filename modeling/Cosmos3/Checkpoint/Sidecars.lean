import Cosmos3.Checkpoint.Mutation
import Mathlib.Data.List.Infix

namespace Cosmos3.Checkpoint

open Basis Basis.Python

section Update

variable (arith : FloatArith)

-- `if key in d: d[key] = d[key] - n`
def decrement (d : Dict) (key : Text) (n : ℤ) : Except Exn Dict :=
  match Dict.get d key with
  | some value => (minus arith value n).map fun value => Dict.set d key value
  | none => .ok d

def isText (text : Text) : Value → Bool
  | .str s => s = text
  | _ => false

def isLmHeadExample : Value → Bool
  | .dict d => ((Dict.get d (ascii "module_example")).map (isText (ascii "lm_head"))).getD false
  | _ => false

def updatedPrecision (value : Value) : Except Exn Dict :=
  match value with
  | .dict mp => do
    let quantized ← iterate ((Dict.get mp (ascii "quantized")).getD (.list []))
    let mp := Dict.set mp (ascii "quantized")
      (.list (quantized.filter fun p => !isText (ascii "lm_head") p))
    decrement arith mp (ascii "n_quantized") 1
  | _ => .error .attributeError

def updatedWeights (sl : Dict) : Except Exn Dict :=
  match Dict.get sl (ascii "n_quantized_weight") with
  | some value => do
    let count ← minus arith value 1
    let scales ← times arith (.int 2) count
    return Dict.set (Dict.set sl (ascii "n_quantized_weight") count) (ascii "n_scale") scales
  | none => .ok sl

def updatedLayout (droppedScaleElements : Nat) : Value → Except Exn Value
  | .none => .ok .none
  | .dict sl => do
    let sl ← updatedWeights arith sl
    let sl ← decrement arith sl (ascii "total_scale_elements") droppedScaleElements
    match Dict.get sl (ascii "example_shapes") with
    | some (.dict ex) =>
      return .dict (Dict.set sl (ascii "example_shapes")
        (.dict (ex.filter fun field => !isLmHeadExample field.2)))
    | _ => return .dict sl
  -- `in` finds nothing here, and then there is no `get`.
  | .list _ => .error .attributeError
  | .str s =>
    if ascii "n_quantized_weight" <:+: s ∨ ascii "total_scale_elements" <:+: s then .error .typeError
    else .error .attributeError
  | _ => .error .typeError

def mapNote : Text :=
  ascii "P6-S5: appended 5 BF16 action tensors + restored BF16 lm_head from the BF16 source; " ++
    ascii "quantized set is now mlp.*/mlp_moe_gen.* only (INV-7 restored)."

def updatedConfig (droppedScaleElements : Nat) (value : Value) : Except Exn Dict := do
  let qc ← asDict value
  let qc := Dict.set qc (ascii "quant_lmhead") (.bool false)
  let mp ← updatedPrecision arith ((Dict.get qc (ascii "mixed_precision")).getD (.dict []))
  let qc := Dict.set qc (ascii "mixed_precision") (.dict mp)
  match Dict.get qc (ascii "scale_layout") with
  | none | some .none => return qc
  | some layout =>
    let sl ← updatedLayout arith droppedScaleElements layout
    return Dict.set qc (ascii "scale_layout") sl

def updatedMap (value : Value) : Except Exn Dict := do
  let qmd ← asDict value
  let qmd ← decrement arith qmd (ascii "n_weight_quantized") 1
  let qmd ← decrement arith qmd (ascii "expected_quantized_count") 1
  let qmd := Dict.set qmd (ascii "dropped_action_keys") (.list [])
  let qmd := Dict.set qmd (ascii "appended_action_keys") (.list (ACTION_TENSORS.map .str))
  let qmd := Dict.set qmd (ascii "lm_head_restored_bf16") (.bool true)
  return Dict.set qmd (ascii "note") (.str mapNote)

def updatedSidecars (quantizationConfig quantizerMapDiff : Value) (droppedScaleElements : Nat) :
    Except Exn (Dict × Dict) := do
  let qc ← updatedConfig arith droppedScaleElements quantizationConfig
  let qmd ← updatedMap arith quantizerMapDiff
  return (qc, qmd)

end Update

section Spec

variable {arith : FloatArith}

theorem decrement_get {d d' : Dict} {key other : Text} {n : ℤ} (h : decrement arith d key n = .ok d')
    (hne : other ≠ key) : Dict.get d' other = Dict.get d other := by
  unfold decrement at h
  split at h
  · obtain ⟨value, -, rfl⟩ := map_eq_ok.mp h
    exact Dict.get_set_of_ne d hne value
  · cases h
    rfl

theorem decrement_int {d d' : Dict} {key : Text} {n m : ℤ} (h : decrement arith d key n = .ok d')
    (hget : Dict.get d key = some (.int m)) : Dict.get d' key = some (.int (m - n)) := by
  unfold decrement at h
  rw [hget] at h
  cases h
  exact Dict.get_set_self d key _

theorem isText_false_iff {text : Text} {value : Value} :
    isText text value = false ↔ value ≠ .str text := by
  cases value <;> simp [isText]

theorem updatedPrecision_spec {value : Value} {mp' : Dict} (h : updatedPrecision arith value = .ok mp') :
    ∃ mp quantized, value = .dict mp ∧ Dict.get mp' (ascii "quantized") = some (.list quantized) ∧
      .str (ascii "lm_head") ∉ quantized ∧
      ∀ n, Dict.get mp (ascii "n_quantized") = some (.int n) →
        Dict.get mp' (ascii "n_quantized") = some (.int (n - 1)) := by
  have hne : ascii "n_quantized" ≠ ascii "quantized" := by decide
  cases value with
  | dict mp =>
      obtain ⟨quantized, -, h⟩ := bind_eq_ok.mp h
      refine ⟨mp, _, rfl, (decrement_get h hne.symm).trans (Dict.get_set_self mp _ _), ?_, fun n hn => ?_⟩
      · intro hmem
        simpa [isText] using (List.mem_filter.mp hmem).2
      · exact decrement_int h ((Dict.get_set_of_ne mp hne _).trans hn)
  | _ => cases h

-- What the probe reads of the new configuration.
theorem updatedConfig_spec {dropped : Nat} {value : Value} {qc' : Dict}
    (h : updatedConfig arith dropped value = .ok qc') :
    ∃ qc mp', value = .dict qc ∧ Dict.get qc' (ascii "quant_lmhead") = some (.bool false) ∧
      Dict.get qc' (ascii "recipe") = Dict.get qc (ascii "recipe") ∧
      Dict.get qc' (ascii "mixed_precision") = some (.dict mp') ∧
      updatedPrecision arith ((Dict.get qc (ascii "mixed_precision")).getD (.dict [])) = .ok mp' := by
  obtain ⟨qc, hqc, h⟩ := bind_eq_ok.mp h
  obtain ⟨mp', hmp, h⟩ := bind_eq_ok.mp h
  have hvalue : value = .dict qc := by
    cases value <;> cases hqc
    rfl
  rw [Dict.get_set_of_ne qc (by decide) _] at hmp
  have hlayout : ascii "quant_lmhead" ≠ ascii "scale_layout" ∧ ascii "recipe" ≠ ascii "scale_layout" ∧
      ascii "mixed_precision" ≠ ascii "scale_layout" := by decide
  have hprecision : ascii "quant_lmhead" ≠ ascii "mixed_precision" ∧
      ascii "recipe" ≠ ascii "mixed_precision" := by decide
  have hrecipe : ascii "recipe" ≠ ascii "quant_lmhead" := by decide
  set second := Dict.set (Dict.set qc (ascii "quant_lmhead") (.bool false)) (ascii "mixed_precision")
    (.dict mp') with hsecond
  have hgets : Dict.get second (ascii "quant_lmhead") = some (.bool false) ∧
      Dict.get second (ascii "recipe") = Dict.get qc (ascii "recipe") ∧
      Dict.get second (ascii "mixed_precision") = some (.dict mp') := by
    rw [hsecond, Dict.get_set_of_ne _ hprecision.1, Dict.get_set_of_ne _ hprecision.2,
      Dict.get_set_of_ne _ hrecipe, Dict.get_set_self, Dict.get_set_self]
    exact ⟨rfl, rfl, rfl⟩
  refine ⟨qc, mp', hvalue, ?_⟩
  suffices hkept : qc' = second ∨ ∃ sl, qc' = Dict.set second (ascii "scale_layout") sl by
    rcases hkept with rfl | ⟨sl, rfl⟩
    · exact ⟨hgets.1, hgets.2.1, hgets.2.2, hmp⟩
    · rw [Dict.get_set_of_ne _ hlayout.1, Dict.get_set_of_ne _ hlayout.2.1,
        Dict.get_set_of_ne _ hlayout.2.2]
      exact ⟨hgets.1, hgets.2.1, hgets.2.2, hmp⟩
  dsimp only at h
  split at h
  · exact .inl (Except.ok.inj h).symm
  · exact .inl (Except.ok.inj h).symm
  · obtain ⟨sl, -, h⟩ := bind_eq_ok.mp h
    exact .inr ⟨sl, (Except.ok.inj h).symm⟩

theorem updatedMap_spec {value : Value} {qmd' : Dict} (h : updatedMap arith value = .ok qmd') :
    Dict.get qmd' (ascii "dropped_action_keys") = some (.list []) := by
  obtain ⟨qmd, -, h⟩ := bind_eq_ok.mp h
  obtain ⟨first, -, h⟩ := bind_eq_ok.mp h
  obtain ⟨second, -, h⟩ := bind_eq_ok.mp h
  obtain rfl := Except.ok.inj h
  rw [Dict.get_set_of_ne _ (by decide), Dict.get_set_of_ne _ (by decide),
    Dict.get_set_of_ne _ (by decide), Dict.get_set_self]

end Spec

section Readable

variable {arith : FloatArith}

theorem readable_minus {value value' : Value} {n : ℤ} (h : minus arith value n = .ok value') :
    Readable arith.toFloatReader value' := by
  unfold minus at h
  split at h
  · cases h
    trivial
  · cases h
    exact arith.readable_sub _ n
  · cases h

theorem readable_times {v w value : Value} (h : times arith v w = .ok value) :
    Readable arith.toFloatReader value := by
  unfold times at h
  split at h
  · cases h
    trivial
  · obtain ⟨x, -, rfl⟩ := map_eq_ok.mp h
    exact arith.readable_mul x _
  · obtain ⟨y, -, rfl⟩ := map_eq_ok.mp h
    exact arith.readable_mul _ y
  · cases h
    exact arith.readable_mul _ _
  · cases h

theorem readable_decrement {d d' : Dict} {key : Text} {n : ℤ}
    (hd : Readable arith.toFloatReader (.dict d)) (h : decrement arith d key n = .ok d') :
    Readable arith.toFloatReader (.dict d') := by
  unfold decrement at h
  split at h
  · obtain ⟨value, hvalue, rfl⟩ := map_eq_ok.mp h
    exact readable_set hd key (readable_minus hvalue)
  · cases h
    exact hd

theorem readable_iterate {value : Value} {items : List Value}
    (hvalue : Readable arith.toFloatReader value) (h : iterate value = .ok items) :
    ReadableItems arith.toFloatReader items := by
  cases value with
  | list items' =>
      cases h
      exact hvalue
  | dict fields =>
      cases h
      refine readableItems_iff.mpr fun item hitem => ?_
      obtain ⟨field, -, rfl⟩ := List.mem_map.mp hitem
      trivial
  | str s =>
      cases h
      refine readableItems_iff.mpr fun item hitem => ?_
      obtain ⟨c, -, rfl⟩ := List.mem_map.mp hitem
      trivial
  | _ => cases h

theorem readable_getD {d : Dict} (hd : Readable arith.toFloatReader (.dict d)) (key : Text)
    {value : Value} (hvalue : Readable arith.toFloatReader value) :
    Readable arith.toFloatReader ((Dict.get d key).getD value) := by
  cases hget : Dict.get d key with
  | none => exact hvalue
  | some found => exact readable_get hd hget

theorem readable_updatedPrecision {value : Value} {mp : Dict}
    (hvalue : Readable arith.toFloatReader value) (h : updatedPrecision arith value = .ok mp) :
    Readable arith.toFloatReader (.dict mp) := by
  cases value with
  | dict d =>
      obtain ⟨quantized, hquantized, h⟩ := bind_eq_ok.mp h
      have hitems := readable_iterate (readable_getD hvalue _
        (show Readable arith.toFloatReader (.list []) from trivial)) hquantized
      have hkept : Readable arith.toFloatReader
          (.list (quantized.filter fun p => !isText (ascii "lm_head") p)) :=
        readableItems_iff.mpr fun p hp =>
          readableItems_iff.mp hitems p (List.mem_of_mem_filter hp)
      exact readable_decrement (readable_set hvalue _ hkept) h
  | _ => cases h

theorem readable_updatedWeights {sl sl' : Dict} (hsl : Readable arith.toFloatReader (.dict sl))
    (h : updatedWeights arith sl = .ok sl') : Readable arith.toFloatReader (.dict sl') := by
  unfold updatedWeights at h
  split at h
  · obtain ⟨count, hcount, h⟩ := bind_eq_ok.mp h
    obtain ⟨scales, hscales, h⟩ := bind_eq_ok.mp h
    cases h
    exact readable_set (readable_set hsl _ (readable_minus hcount)) _ (readable_times hscales)
  · cases h
    exact hsl

theorem readable_updatedLayout {dropped : Nat} {value value' : Value}
    (hvalue : Readable arith.toFloatReader value) (h : updatedLayout arith dropped value = .ok value') :
    Readable arith.toFloatReader value' := by
  cases value with
  | none =>
      cases h
      trivial
  | dict sl =>
      obtain ⟨first, hfirst, h⟩ := bind_eq_ok.mp h
      obtain ⟨second, hsecond, h⟩ := bind_eq_ok.mp h
      have hreadable := readable_decrement (readable_updatedWeights hvalue hfirst) hsecond
      split at h
      · rename_i ex hex
        cases h
        have hfields := readable_get hreadable hex
        refine readable_set hreadable _ ⟨?_, readableFields_iff.mpr fun field hfield => ?_⟩
        · exact hfields.1.sublist (List.filter_sublist.map _)
        · exact readableFields_iff.mp hfields.2 field (List.mem_of_mem_filter hfield)
      · cases h
        exact hreadable
  | str s => simp only [updatedLayout] at h; split_ifs at h
  | _ => cases h

theorem readable_updatedConfig {dropped : Nat} {value : Value} {qc : Dict}
    (hvalue : Readable arith.toFloatReader value) (h : updatedConfig arith dropped value = .ok qc) :
    Readable arith.toFloatReader (.dict qc) := by
  obtain ⟨first, hfirst, h⟩ := bind_eq_ok.mp h
  obtain ⟨mp, hmp, h⟩ := bind_eq_ok.mp h
  have hdict : value = .dict first := by
    cases value <;> cases hfirst
    rfl
  have hquant : Readable arith.toFloatReader
      (.dict (Dict.set first (ascii "quant_lmhead") (.bool false))) :=
    readable_set (hdict ▸ hvalue) _ trivial
  have hempty : Readable arith.toFloatReader (.dict []) := ⟨List.nodup_nil, trivial⟩
  have hprecision := readable_set hquant (ascii "mixed_precision")
    (readable_updatedPrecision (readable_getD hquant _ hempty) hmp)
  dsimp only at h
  split at h
  · cases h
    exact hprecision
  · cases h
    exact hprecision
  · rename_i layout _ hlayout
    obtain ⟨sl, hsl, h⟩ := bind_eq_ok.mp h
    cases h
    exact readable_set hprecision _ (readable_updatedLayout (readable_get hprecision hlayout) hsl)

theorem readable_updatedMap {value : Value} {qmd : Dict} (hvalue : Readable arith.toFloatReader value)
    (h : updatedMap arith value = .ok qmd) : Readable arith.toFloatReader (.dict qmd) := by
  obtain ⟨first, hfirst, h⟩ := bind_eq_ok.mp h
  obtain ⟨second, hsecond, h⟩ := bind_eq_ok.mp h
  obtain ⟨third, hthird, h⟩ := bind_eq_ok.mp h
  have hdict : value = .dict first := by
    cases value <;> cases hfirst
    rfl
  have hkeys : Readable arith.toFloatReader (.list (ACTION_TENSORS.map .str)) := by
    refine readableItems_iff.mpr fun item hitem => ?_
    obtain ⟨name, -, rfl⟩ := List.mem_map.mp hitem
    trivial
  have hcounts := readable_decrement (readable_decrement (hdict ▸ hvalue) hsecond) hthird
  have hdropped : Readable arith.toFloatReader
      (.dict (Dict.set third (ascii "dropped_action_keys") (.list []))) :=
    readable_set hcounts _ trivial
  cases h
  exact @readable_set arith.toFloatReader _ (@readable_set arith.toFloatReader _
    (@readable_set arith.toFloatReader _ hdropped _ (.list _) hkeys) _ (.bool true) trivial) _
    (.str mapNote) trivial

end Readable

end Cosmos3.Checkpoint
