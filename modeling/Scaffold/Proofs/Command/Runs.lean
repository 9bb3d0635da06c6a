import Scaffold.Command.Run
import Scaffold.Proofs.Job.Trails

/-!
# Runs of commands

What a run of a command comes to, in terms of the jobs it is made of.

* `Config.find_reads`, `load_reads`, `loadProject_reads` -- looking for a project changes
  nothing and reports nothing;
* `runGen_run` -- a run of `gen`: **an early end where there is no project**, and else the
  work with what is printed of it;
* `runInit_run` -- a run of `init`: refused, or ended by the disk, or done.
-/
namespace Scaffold

variable {d : Disk}

/-! ## 1. Looking for a project -/

theorem Job.reads_canonical (p : Path) : (Job.canonical p).Reads :=
  Job.reads_ask trivial fun _ => Job.reads_pure _

namespace Config

theorem firstFile_reads : ∀ ps : List Path, (firstFile ps).Reads
  | [] => Job.reads_pure _
  | p :: ps => (Job.reads_isFile p).seq fun isFile => by
      cases isFile
      · exact firstFile_reads ps
      · exact Job.reads_pure _

theorem find_reads (D : Path) : (find D).Reads :=
  (Job.reads_canonical D).seq fun _ => firstFile_reads _

theorem load_reads (file : Path) : (load file).Reads := by
  refine Job.Reads.seq (Job.reads_ask trivial fun a => Job.reads_accept file _) fun text => ?_
  split
  · exact Job.reads_pure _
  · exact Job.reads_fail _

theorem loadOrDefault_reads (D : Path) : (loadOrDefault D).Reads := by
  refine (find_reads D).seq fun found => ?_
  split
  · exact Job.reads_pure _
  · refine (load_reads _).collect.seq fun loaded => ?_
    split <;> exact Job.reads_pure _

end Config

namespace Command

theorem loadProject_reads (D : Path) (config : Option String) : (loadProject D config).Reads := by
  have hmake : ∀ x : Config × Path, (Job.ofExcept (Project.make x.2 x.1)).Reads :=
    fun _ => Job.reads_ofExcept _
  unfold loadProject
  split
  · exact (Config.load_reads _).seq fun c => (Job.reads_canonical _).seq fun root => hmake (c, root)
  · exact (Config.loadOrDefault_reads D).seq hmake

/-! ## 2. Runs -/

/-- **A run of `gen`** looks for the project first. Without one it ends early; with one it
comes to what the work comes to. -/
theorem runGen_run (s : Style) (D : Path) (config : Option String) (force : Bool) (t : Target)
    (d : Disk) : (runGen s D config force t).run d =
      match ((loadProject D config).run d).value with
      | .error f => ⟨.ok (failed (exitCodeOf f) "" (withCause f)), Report.empty, d⟩
      | .ok P => ⟨.ok (genOutput s (((generate P D force t).run d).value,
          ((generate P D force t).run d).report)), Report.empty, ((generate P D force t).run d).disk⟩ := by
  have hload : (((loadProject D config).collect Report.empty).run d).value =
      .ok (((loadProject D config).run d).value, ((loadProject D config).run d).report) :=
    congrArg Ended.value (Job.run_collect _ _ d)
  rw [runGen, Job.Reads.run_seq (loadProject_reads D config).collect hload]
  split
  · rename_i f _ hload
    rw [(Prod.mk.inj hload).1]
    rfl
  · rename_i P _ hload
    rw [(Prod.mk.inj hload).1]
    change (((generate P D force t).collect Report.empty).bind fun ended =>
      Job.done (genOutput s ended)).run d = _
    rw [Job.run_bind, Job.run_collect]
    rfl

/-- What a run of `init` gives by what the disk answers to the default settings. -/
def initOutput (s : Style) : Except Fault Unit → Output
  | .error fault => failed 2 "" ("failed to write " ++ Config.fileName ++ ": " ++ fault.message)
  | .ok _ => ⟨0, printed s "init" none
      (Report.empty.add ⟨Path.ofText Config.fileName, .written, none⟩), ""⟩

/-- **A run of `init`** writes the default settings, unless there are some to be kept. -/
theorem runInit_run (s : Style) (D : Path) (force : Bool) (d : Disk) :
    (runInit s D force).run d =
      if (d.kindAt true (D.child Config.fileName)).isSome && !force then
        ⟨.ok (failed 1 "" (Config.fileName ++ " already exists. Use --force to overwrite.")),
          Report.empty, d⟩
      else
        ⟨.ok (initOutput s (d.answer (.write (D.child Config.fileName) Config.defaultText)).1),
          Report.empty, (d.answer (.write (D.child Config.fileName) Config.defaultText)).2⟩ := by
  have hthere : ((Job.exists (D.child Config.fileName)).run d).value =
      .ok (d.kindAt true (D.child Config.fileName)).isSome := rfl
  rw [runInit, Job.Reads.run_seq (Job.reads_exists _) hthere]
  split
  · rfl
  · rw [Job.run, Job.runFrom]
    obtain ⟨reply, d'⟩ := d.answer (.write (D.child Config.fileName) Config.defaultText)
    cases reply <;> rfl

end Command

end Scaffold
