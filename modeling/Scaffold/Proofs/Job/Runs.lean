import Scaffold.Proofs.Disk.Changes

/-!
# What running a job comes to

* `Job.Ends` -- how a job ends on a disk: a condition on its value and the disk
  it leaves, and another one for its failures. `ends_iff_run` ties it to runs,
  and `ends_bind` takes a job apart;
* `Ends.each` -- **a loop keeps what every round keeps**;
* `run_grows`, `run_grounded` -- what every request keeps, every job keeps;
* `Job.Asks` -- all that a job may ask satisfies a condition; `Asks.keeps`: **a
  job keeps what such requests keep**.
-/
namespace Scaffold.Job

variable {α β : Type} {d : Disk} {good good' : α → Disk → Prop} {bad bad' : Failure → Disk → Prop}

/-! ## 1. How jobs end -/

/-- The job ends on the disk with a value and a disk that satisfy `good`, or
with a failure and a disk that satisfy `bad`. -/
def Ends (good : α → Disk → Prop) (bad : Failure → Disk → Prop) : Job α → Disk → Prop
  | .done a, d => good a d
  | .fail e, d => bad e d
  | .note _ next, d => next.Ends good bad d
  | .ask q next, d => (next (d.answer q).1).Ends good bad (d.answer q).2

@[simp] theorem ends_pure {a : α} : (pure a : Job α).Ends good bad d ↔ good a d := Iff.rfl

theorem ends_ask {q : Request} {next : q.Reply → Job α} :
    (ask q next).Ends good bad d ↔ (next (d.answer q).1).Ends good bad (d.answer q).2 := Iff.rfl

theorem ends_bind (f : α → Job β) {good : β → Disk → Prop} : ∀ (t : Job α) (d : Disk),
    (t.bind f).Ends good bad d ↔ t.Ends (fun a d => (f a).Ends good bad d) bad d
  | .done _, _ => Iff.rfl
  | .fail _, _ => Iff.rfl
  | .note _ next, d => ends_bind f next d
  | .ask q next, d => ends_bind f (next (d.answer q).1) (d.answer q).2

@[simp] theorem ends_seq {f : α → Job β} {good : β → Disk → Prop} {t : Job α} :
    (t >>= f).Ends good bad d ↔ t.Ends (fun a d => (f a).Ends good bad d) bad d :=
  ends_bind f t d

theorem Ends.mono (hgood : ∀ a d, good a d → good' a d) (hbad : ∀ e d, bad e d → bad' e d) :
    ∀ {t : Job α} {d : Disk}, t.Ends good bad d → t.Ends good' bad' d
  | .done a, d, h => hgood a d h
  | .fail e, d, h => hbad e d h
  | .note _ next, d, h => Ends.mono hgood hbad (t := next) (d := d) h
  | .ask q next, d, h =>
      Ends.mono hgood hbad (t := next (d.answer q).1) (d := (d.answer q).2) h

/-- **How a job ends is what its run comes to.** -/
theorem ends_iff_run : ∀ (t : Job α) (d : Disk) (r : Report), t.Ends good bad d ↔
    match (t.runFrom d r).value with
    | .ok a => good a (t.runFrom d r).disk
    | .error e => bad e (t.runFrom d r).disk
  | .done _, _, _ => Iff.rfl
  | .fail _, _, _ => Iff.rfl
  | .note x next, d, r => ends_iff_run next d (r.add x)
  | .ask q next, d, r => ends_iff_run (next (d.answer q).1) (d.answer q).2 r

theorem Ends.of_run_ok {t : Job α} {a : α} (h : t.Ends good bad d) (hv : (t.run d).value = .ok a) :
    good a (t.run d).disk := by
  have := (ends_iff_run t d .empty).mp h
  unfold run at hv ⊢
  rw [hv] at this
  exact this

theorem Ends.of_run_error {t : Job α} {e : Failure} (h : t.Ends good bad d)
    (hv : (t.run d).value = .error e) : bad e (t.run d).disk := by
  have := (ends_iff_run t d .empty).mp h
  unfold run at hv ⊢
  rw [hv] at this
  exact this

/-- What holds however a job ends holds of the disk after the run. -/
theorem Ends.of_run {I : Disk → Prop} {t : Job α} (h : t.Ends (fun _ => I) (fun _ => I) d) :
    I (t.run d).disk := by
  cases hv : (t.run d).value with
  | ok a => exact h.of_run_ok hv
  | error e => exact h.of_run_error hv

/-- A job whose run comes to a value ends with it. -/
theorem ends_of_run {t : Job α} {a : α} (hv : (t.run d).value = .ok a) :
    t.Ends (fun b d' => b = a ∧ d' = (t.run d).disk) (fun _ _ => False) d := by
  rw [ends_iff_run t d .empty]
  change match (t.run d).value with | .ok b => _ | .error e => _
  rw [hv]
  exact ⟨rfl, rfl⟩

/-- Whether a run went well can be read off. -/
theorem ok_of_isOk {r : Except Failure Unit} (h : r.isOk = true) : r = .ok () := by
  cases r with
  | ok a => rfl
  | error e => cases h

/-- A loop keeps what every round keeps. -/
theorem Ends.each {I : Disk → Prop} {f : α → Job Unit} : ∀ {as : List α} {d : Disk},
    (∀ a ∈ as, ∀ d, I d → (f a).Ends (fun _ => I) bad d) → I d →
      (Job.each f as).Ends (fun _ => I) bad d
  | [], _, _, hd => hd
  | a :: as, d, h, hd => by
      unfold Job.each
      rw [ends_bind]
      refine (h a List.mem_cons_self d hd).mono (fun _ d' hd' => ?_) fun _ _ he => he
      exact Ends.each (fun b hb => h b (List.mem_cons_of_mem a hb)) hd'

/-! ## 2. What every job keeps -/

/-- What every request keeps, every job keeps. -/
theorem ends_keeps {I : Disk → Prop} (hI : ∀ d q, I d → I (d.answer q).2) :
    ∀ (t : Job α) (d : Disk), I d → t.Ends (fun _ => I) (fun _ => I) d
  | .done _, _, hd => hd
  | .fail _, _, hd => hd
  | .note _ next, d, hd => ends_keeps hI next d hd
  | .ask q next, d, hd => ends_keeps hI (next (d.answer q).1) (d.answer q).2 (hI d q hd)

theorem Ends.and : ∀ {t : Job α} {d : Disk}, t.Ends good bad d → t.Ends good' bad' d →
    t.Ends (fun a d => good a d ∧ good' a d) (fun e d => bad e d ∧ bad' e d) d
  | .done _, _, h, h' => ⟨h, h'⟩
  | .fail _, _, h, h' => ⟨h, h'⟩
  | .note _ next, d, h, h' => Ends.and (t := next) (d := d) h h'
  | .ask q next, d, h, h' =>
      Ends.and (t := next (d.answer q).1) (d := (d.answer q).2) h h'

/-- **Whatever a job does, the disk grows.** -/
theorem ends_grows (t : Job α) (d : Disk) :
    t.Ends (fun _ => d.Grows) (fun _ => d.Grows) d :=
  ends_keeps (fun d' q h => h.trans (d'.answer_grows q)) t d (.refl d)

theorem ends_grounded (t : Job α) (hd : d.Grounded) :
    t.Ends (fun _ => Disk.Grounded) (fun _ => Disk.Grounded) d :=
  ends_keeps (fun _ q h => Disk.answer_grounded h q) t d hd

theorem run_grows (t : Job α) (d : Disk) : d.Grows (t.run d).disk := (ends_grows t d).of_run

theorem run_grounded (t : Job α) (hd : d.Grounded) : (t.run d).disk.Grounded :=
  (ends_grounded t hd).of_run

/-- A loop reaches for each of its rounds what growing disks keep. -/
theorem Ends.each_all {Q : α → Disk → Prop} (hQ : ∀ a d d', Q a d → d.Grows d' → Q a d')
    {f : α → Job Unit} : ∀ {as : List α} {d : Disk},
      (∀ a ∈ as, ∀ d, (f a).Ends (fun _ => Q a) bad d) →
        (Job.each f as).Ends (fun _ d' => ∀ a ∈ as, Q a d') bad d
  | [], _, _ => fun _ ha => absurd ha List.not_mem_nil
  | a :: as, d, h => by
      unfold Job.each
      rw [ends_bind]
      refine (h a List.mem_cons_self d).mono (fun _ d₁ h₁ => ?_) fun _ _ he => he
      have hrest : (Job.each f as).Ends (fun _ d' => ∀ a ∈ as, Q a d') bad d₁ :=
        Ends.each_all hQ fun b hb => h b (List.mem_cons_of_mem a hb)
      refine (hrest.and (ends_grows _ d₁)).mono (fun _ d₂ h₂ b hb => ?_) fun _ _ he => he.1
      rcases List.mem_cons.mp hb with rfl | hb
      · exact hQ b d₁ d₂ h₁ h₂.2
      · exact h₂.1 b hb

/-- How a job ends, with the disk grown. -/
theorem Ends.grown {t : Job α} (h : t.Ends good bad d) :
    t.Ends (fun a d' => good a d' ∧ d.Grows d') (fun e d' => bad e d' ∧ d.Grows d') d :=
  h.and (ends_grows t d)

/-- How a job ends, with the disk grown and its entries in directories. -/
theorem Ends.kept {t : Job α} (h : t.Ends good bad d) (hd : d.Grounded) :
    t.Ends (fun a d' => good a d' ∧ d'.Grounded ∧ d.Grows d')
      (fun e d' => bad e d' ∧ d'.Grounded ∧ d.Grows d') d :=
  h.and ((ends_grounded t hd).and (ends_grows t d))

/-- Failures that are not the user's need not be accounted for where only those
of the user are. -/
theorem Ends.ofUser {I : Disk → Prop} {t : Job α}
    (h : t.Ends good (fun e _ => e.isUserError = false) d) :
    t.Ends good (fun e d' => e.isUserError = true → I d') d := by
  refine h.mono (fun _ _ h => h) fun e d' he hu => ?_
  rw [he] at hu
  cases hu

/-! ## 3. Single steps -/

@[simp] theorem ends_kind {p : Path} {good : Option EntryKind → Disk → Prop} :
    (kind p).Ends good bad d ↔ good (d.kindAt true p) d := Iff.rfl

@[simp] theorem ends_ownKind {p : Path} {good : Option EntryKind → Disk → Prop} :
    (ownKind p).Ends good bad d ↔ good (d.kindAt false p) d := Iff.rfl

@[simp] theorem ends_canonical {p : Path} {good : Path → Disk → Prop} :
    (canonical p).Ends good bad d ↔ good ((d.answer (.canonical p)).1.getD p) d := Iff.rfl

@[simp] theorem ends_exists {p : Path} {good : Bool → Disk → Prop} :
    (Job.exists p).Ends good bad d ↔ good (d.kindAt true p).isSome d := Iff.rfl

@[simp] theorem ends_isFile {p : Path} {good : Bool → Disk → Prop} :
    (isFile p).Ends good bad d ↔ good (d.kindAt true p == some .file) d := Iff.rfl

@[simp] theorem ends_isDirectory {p : Path} {good : Bool → Disk → Prop} :
    (isDirectory p).Ends good bad d ↔ good (d.kindAt true p == some .directory) d := Iff.rfl

@[simp] theorem ends_tryText {p : Path} {good : Except Fault String → Disk → Prop} :
    (tryText p).Ends good bad d ↔ good (asText (d.readAt p)) d := Iff.rfl

@[simp] theorem ends_ofExcept {r : Except Failure α} : (ofExcept r).Ends good bad d ↔
    match r with
    | .ok a => good a d
    | .error e => bad e d := by
  cases r <;> rfl

theorem ends_list {p : Path} {good : List (String × EntryKind) → Disk → Prop} :
    (list p).Ends good bad d ↔
      match d.listAt p with
      | .ok es => good es d
      | .error f => bad (.disk p f) d := by
  change (accept p (d.listAt p)).Ends good bad d ↔ _
  cases d.listAt p <;> rfl

theorem ends_read {p : Path} {good : Content → Disk → Prop} :
    (read p).Ends good bad d ↔
      match d.readAt p with
      | .ok c => good c d
      | .error f => bad (.disk p f) d := by
  change (accept p (d.readAt p)).Ends good bad d ↔ _
  cases d.readAt p <;> rfl

theorem ends_settle {r : Except Fault Disk} {p : Path} {good : Unit → Disk → Prop} :
    (accept p (d.settle r).1).Ends good bad (d.settle r).2 ↔
      match r with
      | .ok d' => good () d'
      | .error f => bad (.disk p f) d := by
  cases r <;> rfl

theorem ends_write {p : Path} {t : String} {good : Unit → Disk → Prop} :
    (write p t).Ends good bad d ↔
      match d.changeAt p fun _ => .text t with
      | .ok d' => good () d'
      | .error f => bad (.disk p f) d := ends_settle

theorem ends_append {p : Path} {t : String} {good : Unit → Disk → Prop} :
    (append p t).Ends good bad d ↔
      match d.changeAt p fun old => (old.getD (.text "")).append t with
      | .ok d' => good () d'
      | .error f => bad (.disk p f) d := ends_settle

theorem ends_makeDirs {p : Path} {good : Unit → Disk → Prop} :
    (makeDirs p).Ends good bad d ↔
      match d.makeDirs p with
      | (.ok _, d') => good () d'
      | (.error f, d') => bad (.disk p f) d' := by
  change (accept p (d.makeDirs p).1).Ends good bad (d.makeDirs p).2 ↔ _
  rcases d.makeDirs p with ⟨_ | _, _⟩ <;> rfl

/-! ## 4. What a job asks -/

/-- Whatever the disk answers, all that the job asks satisfies the condition. -/
def Asks (Q : Request → Prop) : Job α → Prop
  | .done _ => True
  | .fail _ => True
  | .note _ next => next.Asks Q
  | .ask q next => Q q ∧ ∀ a, (next a).Asks Q

theorem Asks.bind {Q : Request → Prop} {f : α → Job β} (hf : ∀ a, (f a).Asks Q) :
    ∀ {t : Job α}, t.Asks Q → (t.bind f).Asks Q
  | .done a, _ => hf a
  | .fail _, _ => trivial
  | .note _ next, h => Asks.bind hf (t := next) h
  | .ask _ next, h => ⟨h.1, fun a => Asks.bind hf (t := next a) (h.2 a)⟩

theorem Asks.seq {Q : Request → Prop} {t : Job α} {f : α → Job β} (h : t.Asks Q)
    (hf : ∀ a, (f a).Asks Q) : (t >>= f).Asks Q := h.bind hf

theorem asks_pure {Q : Request → Prop} (a : α) : (pure a : Job α).Asks Q := trivial

theorem asks_report {Q : Request → Prop} (p : Path) (o : Outcome) (detail : Option String) :
    (report p o detail).Asks Q := trivial

theorem asks_accept {Q : Request → Prop} (p : Path) (r : Except Fault α) :
    (accept p r).Asks Q := by
  cases r <;> trivial

theorem asks_ofExcept {Q : Request → Prop} (r : Except Failure α) : (ofExcept r).Asks Q := by
  cases r <;> trivial

theorem asks_tryText {Q : Request → Prop} {p : Path} (h : Q (.read p)) : (tryText p).Asks Q :=
  ⟨h, fun _ => trivial⟩

theorem asks_isFile {Q : Request → Prop} {p : Path} (h : Q (.kind p)) : (isFile p).Asks Q :=
  ⟨h, fun _ => trivial⟩

theorem asks_isDirectory {Q : Request → Prop} {p : Path} (h : Q (.kind p)) :
    (isDirectory p).Asks Q := ⟨h, fun _ => trivial⟩

theorem asks_write {Q : Request → Prop} {p : Path} {t : String} (h : Q (.write p t)) :
    (write p t).Asks Q := ⟨h, fun r => asks_accept p r⟩

theorem asks_append {Q : Request → Prop} {p : Path} {t : String} (h : Q (.append p t)) :
    (append p t).Asks Q := ⟨h, fun r => asks_accept p r⟩

theorem asks_makeDirs {Q : Request → Prop} {p : Path} (h : Q (.makeDirs p)) :
    (makeDirs p).Asks Q := ⟨h, fun r => asks_accept p r⟩

/-- What every request of some kind keeps, a job with no other requests keeps. -/
theorem Asks.keeps {Q : Request → Prop} {I : Disk → Prop}
    (hI : ∀ d q, Q q → I d → I (d.answer q).2) :
    ∀ {t : Job α} {d : Disk}, t.Asks Q → I d → t.Ends (fun _ => I) (fun _ => I) d
  | .done _, _, _, hd => hd
  | .fail _, _, _, hd => hd
  | .note _ next, d, h, hd => Asks.keeps hI (t := next) (d := d) h hd
  | .ask q next, d, h, hd =>
      Asks.keeps hI (t := next (d.answer q).1) (d := (d.answer q).2) (h.2 _) (hI d q h.1 hd)

end Scaffold.Job
