import Cosmos3.Checkpoint.ProbeLaws
import Cosmos3.Checkpoint.Reversible

namespace Cosmos3.Checkpoint

open Basis Basis.Python

variable {arith : FloatArith} {sha : Bytes → Text} {order : SetOrder} {ck src : Path} {backup verify : Bool}
  {disk₀ disk disk' : Disk} {report : Report}

-- The flags of another run, and the source it takes.
structure Rerun where
  src : Path
  backup : Bool
  verify : Bool
  order : SetOrder

def Rerun.program (arith : FloatArith) (sha : Bytes → Text) (ck : Path) (run : Rerun) : Action Report :=
  applyMutation arith sha run.order ck run.src run.backup run.verify

-- How a run ends that finds its checkpoint done: the source is looked at first.
def refusal (arith : FloatArith) (disk : Disk) (src : Path) : Failure :=
  match resolveSourceTensors arith.toFloatReader disk (transformerDir src) ADDED_TENSORS with
  | .ok _ => .mutation .alreadyMutated
  | .error failure => failure

-- A checkpoint that has been mutated: its config is read, and its transformer is refused.
structure Done (arith : FloatArith) (ck : Path) (disk : Disk) : Prop where
  config : ∃ config, readJson arith.toFloatReader disk (Target.config.path ck) = .ok config
  header : ∃ header n, readHeader arith.toFloatReader disk (Target.st.path ck) = .ok (header, n) ∧
    already header = true

theorem done_of_applied
    (h : (applyMutation arith sha order ck src backup verify).exec disk₀ = (.ok report, disk)) :
    Done arith ck disk := by
  obtain ⟨p, content, n, cfg, newQc, newQmd, qc, qmd, happlied⟩ := applyMutation_ok h
  have hmutated := already_new happlied.prepares happlied.written
  refine ⟨?_, p.layout.entries, n, readHeader_eq_ok.mpr ⟨content, happlied.st, happlied.written.header⟩,
    hmutated⟩
  have hconfig := happlied.prepares.config
  rw [happlied.config] at hconfig
  have hreadable : Readable arith.toFloatReader (.dict (newConfig cfg)) :=
    readable_set (readable_readJson hconfig) _ trivial
  exact ⟨_, readJson_jsonBytes hreadable happlied.configFile⟩

theorem Done.prepare_eq (h : Done arith ck disk) (run : Rerun) :
    prepare arith sha run.order ck run.src disk = .error (refusal arith disk run.src) := by
  obtain ⟨config, hconfig⟩ := h.config
  obtain ⟨header, n, hheader, hmutated⟩ := h.header
  unfold prepare refusal
  simp only [hconfig, hheader, bind, Except.bind]
  cases resolveSourceTensors arith.toFloatReader disk (transformerDir run.src) ADDED_TENSORS with
  | error failure => rfl
  | ok srcmap =>
      have hplan : planMutation arith run.order header (srcmap.map (·.entry)) config =
          .error (.mutation .alreadyMutated) := by
        rw [planMutation, if_pos hmutated]
        rfl
      simp only [hplan]

theorem Done.refuses (h : Done arith ck disk) (run : Rerun) :
    (run.program arith sha ck).exec disk = (.error (refusal arith disk run.src), disk) := by
  have hread : (Program.read (prepare arith sha run.order ck run.src)).exec disk =
      (.error (refusal arith disk run.src), disk) := by
    rw [Program.exec_read, h.prepare_eq]
  exact Program.exec_seq_error hread _

-- A run on such a checkpoint has only read, wherever it is cut.
theorem Done.keeps (h : Done arith ck disk) (run : Rerun) :
    Program.Keeps (fun other => other = disk) (run.program arith sha ck) := by
  refine Program.Spec.seq (Q := fun _ _ => False) (Program.Spec.read (fun other p heq hread => ?_) fun _ heq => heq)
    fun p => ⟨fun _ _ _ hfalse => hfalse.elim, fun _ _ _ hfalse => hfalse.elim⟩
  rw [heq, h.prepare_eq] at hread
  cases hread

-- Once a run has returned no other one does, whatever its source and flags are: it stops before
-- it has written anything, and so any number of them, each cut wherever it was, leaves
-- the checkpoint as it is.
theorem applied_once
    (h : (applyMutation arith sha order ck src backup verify).exec disk₀ = (.ok report, disk)) :
    (∀ run : Rerun, (run.program arith sha ck).exec disk = (.error (refusal arith disk run.src), disk)) ∧
      ∀ disk', Program.Runs (fun run : Rerun => run.program arith sha ck) disk disk' → disk' = disk := by
  have hdone := done_of_applied h
  exact ⟨hdone.refuses, fun disk' hruns => Program.Runs.invariant hdone.keeps hruns rfl⟩

-- A second run of a sample with the same source.
theorem applied_once_sampleDisk : ∃ report disk, (applyMutation sampleArith sampleSha sampleOrder sampleCkpt
      [ascii "bf16"] true true).exec (sampleDisk (ascii "F8_E4M3") 1) = (.ok report, disk) ∧
    (applyMutation sampleArith sampleSha sampleOrder sampleCkpt [ascii "bf16"] false false).exec disk =
      (.error (refusal sampleArith disk [ascii "bf16"]), disk) := by
  obtain ⟨report, disk, hrun⟩ := sample_returns (.inl rfl) 1 true true
  exact ⟨report, disk, hrun, (applied_once hrun).1 ⟨[ascii "bf16"], false, false, sampleOrder⟩⟩

end Cosmos3.Checkpoint
