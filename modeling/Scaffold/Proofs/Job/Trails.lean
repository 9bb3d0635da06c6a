import Scaffold.Proofs.Job.Passing

/-!
# What a run leaves behind

A run leaves records and a disk, and the two belong together.

* `Job.Leaves` -- a condition on the records of a run and on the disk before and
  after it;
* `run_bind` -- **a run of two jobs is a run of the second after one of the
  first**;
* `Trail` -- steps, each with its own records, one after another; `Trail.keeps`:
  **what each step keeps, the whole trail keeps**;
* `leaves_seq`, `Leaves.each` -- jobs that leave a trail, put together;
* `Disk.Reaches` -- the second disk comes from the first by requests;
  `Reaches.keeps`: **what every request keeps holds there as well**.
-/
namespace Scaffold

/-! ## 1. Trails -/

/-- Steps one after another: all that they report, and the disk they leave. -/
inductive Trail (step : List Record → Disk → Disk → Prop) : List Record → Disk → Disk → Prop
  | nil (d : Disk) : Trail step [] d d
  | cons {rs rs' : List Record} {d d₁ d' : Disk} (h : step rs d d₁) (rest : Trail step rs' d₁ d') :
      Trail step (rs ++ rs') d d'

section Trails

variable {step step' : List Record → Disk → Disk → Prop} {rs rs' : List Record} {d d₁ d' : Disk}

theorem Trail.single (h : step rs d d') : Trail step rs d d' := by
  have htrail := Trail.cons h (.nil d')
  rwa [List.append_nil] at htrail

theorem Trail.append (h : Trail step rs d d₁) (h' : Trail step rs' d₁ d') :
    Trail step (rs ++ rs') d d' := by
  induction h with
  | nil d => exact h'
  | cons hstep _ ih =>
    rw [List.append_assoc]
    exact .cons hstep (ih h')

/-- **What each step keeps, the whole trail keeps.** -/
theorem Trail.keeps {K : List Record → Disk → Disk → Prop} (hnil : ∀ d, K [] d d)
    (happend : ∀ {rs rs' d d₁ d'}, K rs d d₁ → K rs' d₁ d' → K (rs ++ rs') d d')
    (hstep : ∀ {rs d d'}, step rs d d' → K rs d d') (h : Trail step rs d d') : K rs d d' := by
  induction h with
  | nil d => exact hnil d
  | cons h _ ih => exact happend (hstep h) ih

theorem Trail.mono (h : ∀ {rs d d'}, step rs d d' → step' rs d d') (ht : Trail step rs d d') :
    Trail step' rs d d' :=
  ht.keeps .nil .append fun hs => .single (h hs)

end Trails

/-! ## 2. Disks that are reached -/

/-- The second disk comes from the first by requests. -/
inductive Disk.Reaches (d : Disk) : Disk → Prop
  | refl : Reaches d d
  | step {d' : Disk} (h : Reaches d d') (q : Request) : Reaches d (d'.answer q).2

theorem Disk.Reaches.trans {a b c : Disk} (h : a.Reaches b) (h' : b.Reaches c) : a.Reaches c := by
  induction h' with
  | refl => exact h
  | step _ q ih => exact ih.step q

/-- **What every request keeps holds of every disk that is reached.** -/
theorem Disk.Reaches.keeps {I : Disk → Prop} (hI : ∀ d q, I d → I (d.answer q).2) {d d' : Disk}
    (h : d.Reaches d') (hd : I d) : I d' := by
  induction h with
  | refl => exact hd
  | step _ q ih => exact hI _ q ih

theorem Disk.Reaches.grows {d d' : Disk} (h : d.Reaches d') : d.Grows d' :=
  h.keeps (I := d.Grows) (fun d₁ q hd => hd.trans (d₁.answer_grows q)) (.refl d)

namespace Job

variable {α β : Type} {d : Disk} {left left' step : List Record → Disk → Disk → Prop}

theorem ends_reaches (t : Job α) (d : Disk) :
    t.Ends (fun _ => d.Reaches) (fun _ => d.Reaches) d :=
  ends_keeps (I := d.Reaches) (fun _ q h => h.step q) t d .refl

theorem run_reaches (t : Job α) (d : Disk) : d.Reaches (t.run d).disk := (ends_reaches t d).of_run

/-! ## 3. Runs one after another -/

/-- A run goes on with what was reported before. -/
theorem runFrom_eq : ∀ (t : Job α) (d : Disk) (before : Report), t.runFrom d before =
    ⟨(t.run d).value, ⟨before.records ++ (t.run d).report.records⟩, (t.run d).disk⟩
  | .done a, d, before => by simp [run, runFrom, Report.empty]
  | .fail e, d, before => by simp [run, runFrom, Report.empty]
  | .note r next, d, before => by
      unfold run runFrom
      rw [runFrom_eq next d (before.add r), runFrom_eq next d (Report.empty.add r)]
      simp [Report.add, Report.empty]
  | .ask q next, d, before => runFrom_eq (next (d.answer q).1) (d.answer q).2 before

/-- What is reported first comes first. -/
theorem run_note (r : Record) (next : Job α) (d : Disk) : (note r next).run d =
    ⟨(next.run d).value, ⟨r :: (next.run d).report.records⟩, (next.run d).disk⟩ :=
  runFrom_eq next d (Report.empty.add r)

/-- **A run of two jobs is a run of the second after one of the first**, unless
that one fails. -/
theorem run_bind (f : α → Job β) : ∀ (t : Job α) (d : Disk), (t.bind f).run d =
    match (t.run d).value with
    | .ok a => ⟨((f a).run (t.run d).disk).value,
        ⟨(t.run d).report.records ++ ((f a).run (t.run d).disk).report.records⟩,
        ((f a).run (t.run d).disk).disk⟩
    | .error e => ⟨.error e, (t.run d).report, (t.run d).disk⟩
  | .done a, d => by simp [Job.bind, run, runFrom, Report.empty]
  | .fail e, d => by simp [Job.bind, run, runFrom, Report.empty]
  | .note r next, d => by
      change (note r (next.bind f)).run d = _
      rw [run_note, run_note, run_bind f next d]
      dsimp only
      cases (next.run d).value <;> rfl
  | .ask q next, d => run_bind f (next (d.answer q).1) (d.answer q).2

/-- **A job that is collected** comes to what its run comes to, the report included, and
reports nothing itself. -/
theorem run_collect : ∀ (t : Job α) (before : Report) (d : Disk), (t.collect before).run d =
    ⟨.ok ((t.runFrom d before).value, (t.runFrom d before).report), Report.empty,
      (t.runFrom d before).disk⟩
  | .done _, _, _ => rfl
  | .fail _, _, _ => rfl
  | .note r next, before, d => run_collect next (before.add r) d
  | .ask q next, before, d => run_collect (next (d.answer q).1) before (d.answer q).2

/-- A loop goes on with what its first round leaves, if that goes well. -/
theorem run_each_cons {f : α → Job Unit} {a : α} (as : List α) {u : Unit}
    (h : ((f a).run d).value = .ok u) :
    ((each f (a :: as)).run d).value = ((each f as).run ((f a).run d).disk).value ∧
      ((each f (a :: as)).run d).disk = ((each f as).run ((f a).run d).disk).disk := by
  change (((f a).bind fun _ => each f as).run d).value = _ ∧
    (((f a).bind fun _ => each f as).run d).disk = _
  rw [run_bind, h]
  exact ⟨rfl, rfl⟩

/-- A job leaves the disk of its run. -/
theorem ends_disk (t : Job α) (d : Disk) :
    t.Ends (fun _ d' => d' = (t.run d).disk) (fun _ d' => d' = (t.run d).disk) d := by
  rw [ends_iff_run t d Report.empty]
  split <;> rfl

/-- How a run ends is what it comes to. -/
theorem ends_value (t : Job α) (d : Disk) :
    t.Ends (fun a _ => (t.run d).value = .ok a) (fun e _ => (t.run d).value = .error e) d := by
  rw [ends_iff_run t d .empty]
  change match (t.run d).value with | .ok a => _ | .error e => _
  cases (t.run d).value <;> rfl

/-! ## 4. What a run leaves -/

/-- The records of a run, and the disk before and after it, satisfy the
condition. -/
def Leaves (left : List Record → Disk → Disk → Prop) (t : Job α) (d : Disk) : Prop :=
  left (t.run d).report.records d (t.run d).disk

theorem Leaves.mono (h : ∀ {rs d'}, left rs d d' → left' rs d d') {t : Job α}
    (ht : t.Leaves left d) : t.Leaves left' d := h ht

theorem leaves_fail (e : Failure) (h : left [] d d) : (fail e : Job α).Leaves left d := h

theorem leaves_report {p : Path} {o : Outcome} {detail : Option String}
    (h : left [⟨p, o, detail⟩] d d) : (report p o detail).Leaves left d := h

/-- A job that may report nothing reports nothing. -/
theorem Says.quiet : ∀ {t : Job α} {d : Disk}, t.Says (fun _ => False) →
    (t.run d).report.records = []
  | .done _, _, _ => rfl
  | .fail _, _, _ => rfl
  | .note _ _, _, h => h.1.elim
  | .ask q next, d, h => Says.quiet (t := next (d.answer q).1) (d := (d.answer q).2) (h _)

theorem Reads.collect {before : Report} : ∀ {t : Job α}, t.Reads → (t.collect before).Reads
  | .done _, _ => reads_pure _
  | .fail _, _ => reads_pure _
  | .note _ _, h => h.2.1.elim
  | .ask _ next, h => reads_ask h.1.1 fun a => Reads.collect (t := next a) ⟨h.1.2 a, h.2 a⟩

theorem Reads.disk {t : Job α} (h : t.Reads) : (t.run d).disk = d :=
  (h.1.keeps (I := (· = d)) (fun _ _ hq hd => hq.answer.trans hd) rfl).of_run

/-- A run that looks first is the run of what comes after. -/
theorem Reads.run_seq {t : Job α} {f : α → Job β} (ht : t.Reads) {a : α}
    (hv : (t.run d).value = .ok a) : (t >>= f).run d = (f a).run d := by
  change (t.bind f).run d = _
  rw [run_bind, hv]
  dsimp only
  rw [ht.2.quiet, ht.disk]
  rfl

/-- Looking first leaves nothing. -/
theorem leaves_look {t : Job α} {f : α → Job β} (ht : t.Reads) (hnil : left [] d d)
    (h : t.Ends (fun a _ => (f a).Leaves left d) (fun _ _ => True) d) :
    (t >>= f).Leaves left d := by
  unfold Leaves
  change left ((t.bind f).run d).report.records d ((t.bind f).run d).disk
  rw [run_bind]
  split
  · rename_i a ha
    dsimp only
    rw [ht.2.quiet, ht.disk]
    exact h.of_run_ok ha
  · rw [ht.2.quiet, ht.disk]
    exact hnil

/-- A job that reports nothing but, when it goes well, one thing at its end. -/
theorem leaves_reported {t : Job Unit} (good : Unit → Disk → Prop) (bad : Failure → Disk → Prop)
    {p : Path} {o : Outcome} {detail : Option String} (ht : t.Says fun _ => False)
    (h : t.Ends good bad d) (hgood : ∀ d', good () d' → left [⟨p, o, detail⟩] d d')
    (hbad : ∀ e d', bad e d' → left [] d d') :
    (t >>= fun _ => report p o detail).Leaves left d := by
  unfold Leaves
  change left ((t.bind fun _ => report p o detail).run d).report.records d
    ((t.bind fun _ => report p o detail).run d).disk
  rw [run_bind]
  split
  · rename_i a ha
    dsimp only
    rw [ht.quiet]
    exact hgood _ (h.of_run_ok ha)
  · rename_i e he
    rw [ht.quiet]
    exact hbad e _ (h.of_run_error he)

/-- Whatever value a job is given at its end, it leaves the same. -/
theorem leaves_value {t : Job α} {f : α → Job β} {g : α → β} (h : t.Leaves left d)
    (hf : ∀ a, f a = done (g a)) : (t >>= f).Leaves left d := by
  unfold Leaves
  change left ((t.bind f).run d).report.records d ((t.bind f).run d).disk
  rw [run_bind]
  split
  · rename_i a _
    rw [hf a]
    change left ((t.run d).report.records ++ []) d (t.run d).disk
    rw [List.append_nil]
    exact h
  · exact h

/-! ## 5. Jobs that leave trails -/

/-- **The trail of two jobs** is that of the first and then that of the second. -/
theorem leaves_seq {t : Job α} {f : α → Job β} (ht : t.Leaves (Trail step) d)
    (hf : ∀ a, (f a).Leaves (Trail step) (t.run d).disk) : (t >>= f).Leaves (Trail step) d := by
  unfold Leaves
  change Trail step ((t.bind f).run d).report.records d ((t.bind f).run d).disk
  rw [run_bind]
  split
  · exact Trail.append ht (hf _)
  · exact ht

/-- **A loop leaves a trail if each of its rounds does**, on all disks that the
loop can reach. -/
theorem Leaves.each {f : α → Job Unit} : ∀ {as : List α} {d : Disk},
    (∀ a ∈ as, ∀ d', d.Reaches d' → (f a).Leaves (Trail step) d') →
      (Job.each f as).Leaves (Trail step) d
  | [], d, _ => .nil d
  | a :: as, d, h => by
      refine leaves_seq (t := f a) (f := fun _ => Job.each f as)
        (h a List.mem_cons_self d .refl) fun _ => ?_
      exact Leaves.each fun b hb d' hd' =>
        h b (List.mem_cons_of_mem a hb) d' ((run_reaches (f a) d).trans hd')

end Job

end Scaffold
