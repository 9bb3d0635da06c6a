import Scaffold.Proofs.Command.Runs
import Scaffold.Proofs.Json.Reading

/-!
# Reports that are printed

A run with `--format json` is read by a script, which has nothing but its standard output and
its exit code.

* `Reported` -- the output is what such a script needs: **one object**, which tells success
  from failure as the exit code does, and the error of a failure;
* `reported_json` -- what is printed of a report is that;
* `Wish.Starts` -- the run comes as far as its work: there is a project, or the default settings
  are written;
* `run_reported_iff` -- **a run is reported exactly when it comes that far**. What goes wrong
  before is told on standard error only.
-/
namespace Scaffold.Command

variable {d : Disk} {D : Path}

/-! ## 1. Outputs that report -/

/-- Standard output is one object, whose fields have different names. Its field `success` is
true exactly when the exit code is 0, and where it is not there is a field `error`. -/
def Reported (o : Output) : Prop :=
  ∃ fields, Json.read o.stdout = some (.object fields) ∧ (fields.map Prod.fst).Nodup ∧
    fields.lookup "success" = some (.flag (o.exitCode == 0)) ∧
    (o.exitCode ≠ 0 → ∃ message, fields.lookup "error" = some (.text message))

/-- **What is printed of a report in JSON is reported**, if it goes with the exit code. -/
theorem reported_json {exitCode : Nat} {stderr command : String} {error : Option String} {r : Report}
    (h : exitCode = 0 ↔ error = none) :
    Reported ⟨exitCode, (r.json command error).pretty ++ "\n", stderr⟩ := by
  have hread := Json.read_pretty (r.json command error)
  cases error with
  | none =>
    obtain rfl : exitCode = 0 := h.mpr rfl
    have hnodup : ["command", "success", "written", "artifacts"].Nodup := by decide
    exact ⟨_, hread, hnodup, rfl, fun hne => absurd rfl hne⟩
  | some message =>
    have hne : exitCode ≠ 0 := fun h0 => absurd (h.mp h0) (by simp)
    have hnodup : ["command", "success", "error", "written", "artifacts"].Nodup := by decide
    refine ⟨_, hread, hnodup, ?_, fun _ => ⟨message, rfl⟩⟩
    rw [beq_eq_false_iff_ne.mpr hne]
    rfl

/-- Where nothing is printed, nothing is reported. -/
theorem not_reported_empty {exitCode : Nat} {stderr : String} :
    ¬Reported ⟨exitCode, "", stderr⟩ := by
  rintro ⟨fields, hread, -⟩
  rw [Json.read_empty] at hread
  cases hread

theorem exitCodeOf_ne_zero (f : Failure) : exitCodeOf f ≠ 0 := by
  unfold exitCodeOf
  split <;> decide

/-- What a run of `gen` prints of its work is reported, whether the work failed or not. -/
theorem reported_genOutput (colors : Bool) (ended : Except Failure Unit × Report) :
    Reported (genOutput ⟨true, colors⟩ ended) := by
  match ended with
  | (.ok _, r) => exact reported_json (by simp)
  | (.error f, r) => exact reported_json (iff_of_false (exitCodeOf_ne_zero f) (by simp))

/-! ## 2. Runs that report -/

/-- The wish asks for a report in JSON. -/
def Wish.inJson : Wish → Bool
  | .gen _ _ json _ => json
  | .init _ json => json
  | _ => false

/-- The run comes as far as its work. For `gen`, a project is found; for `init`, there are no
settings that have to be kept, and the disk lets the default ones be written. -/
def Wish.Starts (d : Disk) (D : Path) : Wish → Prop
  | .gen _ _ _ config => ∃ P, ((loadProject D config).run d).value = .ok P
  | .init force _ =>
    ((d.kindAt true (D.child Config.fileName)).isSome = true → force = true) ∧
      (d.answer (.write (D.child Config.fileName) Config.defaultText)).1 = .ok ()
  | _ => False

/-- A run of `gen`. -/
theorem runGen_reported (colors : Bool) (config : Option String) (force : Bool) (t : Target) :
    ∃ o, ((runGen ⟨true, colors⟩ D config force t).run d).value = .ok o ∧
      ((∃ P, ((loadProject D config).run d).value = .ok P) ∧ Reported o ∨
        (¬∃ P, ((loadProject D config).run d).value = .ok P) ∧ o.stdout = "" ∧ o.exitCode ≠ 0) := by
  rw [runGen_run]
  cases hload : ((loadProject D config).run d).value with
  | error f => exact ⟨_, rfl, .inr ⟨by simp, rfl, exitCodeOf_ne_zero f⟩⟩
  | ok P => exact ⟨_, rfl, .inl ⟨⟨P, rfl⟩, reported_genOutput colors _⟩⟩

/-- A run of `init`. -/
theorem runInit_reported (colors force : Bool) :
    ∃ o, ((runInit ⟨true, colors⟩ D force).run d).value = .ok o ∧
      ((Wish.init force true).Starts d D ∧ Reported o ∨
        ¬(Wish.init force true).Starts d D ∧ o.stdout = "" ∧ o.exitCode ≠ 0) := by
  rw [runInit_run]
  split
  · rename_i hkept
    rw [Bool.and_eq_true, Bool.not_eq_true'] at hkept
    refine ⟨_, rfl, .inr ⟨fun h => ?_, rfl, by decide⟩⟩
    exact absurd (h.1 hkept.1) (by simp [hkept.2])
  · rename_i hkept
    have hfree : (d.kindAt true (D.child Config.fileName)).isSome = true → force = true := by
      intro hthere
      by_contra hforce
      exact hkept (by rw [hthere, Bool.true_and, Bool.not_eq_true']; simpa using hforce)
    cases hwrite : (d.answer (.write (D.child Config.fileName) Config.defaultText)).1 with
    | error fault =>
      refine ⟨_, rfl, .inr ⟨fun h => ?_, rfl, Nat.succ_ne_zero 1⟩⟩
      cases hwrite.symm.trans h.2
    | ok =>
      exact ⟨_, rfl, .inl ⟨⟨hfree, hwrite⟩, reported_json (by simp)⟩⟩

/-- **A run in JSON is reported exactly when it comes as far as its work**: for any words that
are accepted, in any directory of any disk. The run always ends; where it does not come that
far, standard output is empty and the exit code is not 0. -/
theorem run_reported_iff {words : List String} {w : Wish} (colors : Bool) (D : Path) (d : Disk)
    (hw : readWish words = .ok w) (hjson : w.inJson = true) :
    ∃ o, ((run colors D words).run d).value = .ok o ∧ (Reported o ↔ w.Starts d D) ∧
      (¬w.Starts d D → o.stdout = "" ∧ o.exitCode ≠ 0) := by
  have hiff : ∀ {o : Output} {starts : Prop},
      starts ∧ Reported o ∨ ¬starts ∧ o.stdout = "" ∧ o.exitCode ≠ 0 →
        (Reported o ↔ starts) ∧ (¬starts → o.stdout = "" ∧ o.exitCode ≠ 0) := by
    rintro ⟨exitCode, stdout, stderr⟩ starts (⟨hs, hr⟩ | ⟨hs, rfl, hne⟩)
    · exact ⟨iff_of_true hr hs, fun h => absurd hs h⟩
    · exact ⟨iff_of_false not_reported_empty hs, fun _ => ⟨rfl, hne⟩⟩
  rw [run, hw]
  cases w with
  | gen t force json config =>
    obtain rfl : json = true := hjson
    obtain ⟨o, ho, h⟩ := runGen_reported (d := d) (D := D) colors config force t
    exact ⟨o, ho, hiff h⟩
  | init force json =>
    obtain rfl : json = true := hjson
    obtain ⟨o, ho, h⟩ := runInit_reported (d := d) (D := D) colors force
    exact ⟨o, ho, hiff h⟩
  | version => cases hjson
  | help => cases hjson

/-- A project with one header, whose settings exclude nothing that can be read. -/
def brokenDisk : Disk :=
  ⟨[(["w"], .directory), (["w", "src"], .directory),
    (["w", "src", "a.h"], .file (.text "class A {};\n")),
    (["w", "testgen.toml"], .file (.text "[generate]\nexclude = [\"[\"]\n")),
    (["w", "good.toml"], .file (.text ""))]⟩

theorem missing_input_reported :
    readWish ["gen", "--unit-test", "src/b.h", "--format", "json", "--config", "good.toml"] =
      .ok (.gen (.unitTest "src/b.h") false true (some "good.toml")) ∧
    ∃ o, ((run false ⟨true, ["w"]⟩ ["gen", "--unit-test", "src/b.h", "--format", "json", "--config",
      "good.toml"]).run brokenDisk).value = .ok o ∧ o.exitCode = 1 ∧ Reported o := by
  have hwish : readWish ["gen", "--unit-test", "src/b.h", "--format", "json", "--config",
      "good.toml"] = .ok (.gen (.unitTest "src/b.h") false true (some "good.toml")) := by
    decide +kernel
  obtain ⟨o, ho, hiff, -⟩ := run_reported_iff false ⟨true, ["w"]⟩ brokenDisk hwish rfl
  have hcode : (((run false ⟨true, ["w"]⟩ ["gen", "--unit-test", "src/b.h", "--format", "json",
      "--config", "good.toml"]).run brokenDisk).value.toOption.map Output.exitCode) = some 1 := by
    decide +kernel
  have hload : ((loadProject ⟨true, ["w"]⟩ (some "good.toml")).run brokenDisk).value.isOk = true := by
    decide +kernel
  refine ⟨hwish, o, ho, ?_, hiff.mpr ?_⟩
  · rw [ho] at hcode
    exact Option.some.inj hcode
  · cases hvalue : ((loadProject ⟨true, ["w"]⟩ (some "good.toml")).run brokenDisk).value with
    | ok P => exact ⟨P, hvalue⟩
    | error f => rw [hvalue] at hload; cases hload

/-- Three runs that end in an error before there is a report: settings that have to be kept, a
pattern that cannot be read, and settings that are not there. -/
theorem early_ends_unreported :
    (readWish ["init", "--format", "json"] = .ok (.init false true) ∧
      ((run false ⟨true, ["w"]⟩ ["init", "--format", "json"]).run brokenDisk).value = .ok
        ⟨1, "", "Error: testgen.toml already exists. Use --force to overwrite.\n"⟩) ∧
    (readWish ["gen", "--mock", "src/a.h", "--format", "json"] =
        .ok (.gen (.mock "src/a.h") false true none) ∧
      (((run false ⟨true, ["w"]⟩ ["gen", "--mock", "src/a.h", "--format", "json"]).run
        brokenDisk).value.toOption.map fun o => (o.exitCode, o.stdout)) = some (1, "")) ∧
    (readWish ["gen", "--mock", "src/a.h", "--format", "json", "-c", "no.toml"] =
        .ok (.gen (.mock "src/a.h") false true (some "no.toml")) ∧
      (((run false ⟨true, ["w"]⟩ ["gen", "--mock", "src/a.h", "--format", "json", "-c", "no.toml"]).run
        brokenDisk).value.toOption.map fun o => (o.exitCode, o.stdout)) = some (2, "")) ∧
    ∀ exitCode stderr, ¬Reported ⟨exitCode, "", stderr⟩ := by
  refine ⟨?_, ?_, ?_, fun _ _ => not_reported_empty⟩ <;> decide +kernel

end Scaffold.Command
