import Scaffold.Proofs.Disk.Distinct
import Scaffold.Proofs.Job.Runs

/-!
# What a job passes through

A run passes from disk to disk, and it may be cut off on the way.

* `Job.Interrupted` -- the disks that are left when a run is cut off; `Job.left` computes
  some of them;
* `Job.Goes` -- a condition on every disk on the way, on every record and on the
  end; `goes_seq` takes a job apart, and `Goes.interrupted`, `Goes.records` and
  `Goes.of_run_ok` say what it means for runs;
* `Job.Follows` -- **whatever is true along one job is true along another**, which
  may look at the disk more often;
* `Job.WritesLast` -- a job that writes once and is done then: cut off before, **it
  has made directories at most**.
-/
namespace Scaffold

/-- The disk while it answers a request: of the directories that are made, some
may be there already. -/
def Disk.Partly (d : Disk) : Request → Disk → Prop
  | .makeDirs p, x => d.Extends x ∧ x.Extends (d.makeDirs p).2 ∧ x.Grounded ∧ x.Distinct
  | _, _ => False

theorem Disk.Partly.extends {d x : Disk} {q : Request} (h : d.Partly q x) : d.Extends x := by
  cases q with
  | makeDirs p => exact h.1
  | _ => exact h.elim

theorem Disk.Partly.sound {d x : Disk} {q : Request} (h : d.Partly q x) :
    x.Grounded ∧ x.Distinct := by
  cases q with
  | makeDirs p => exact h.2.2
  | _ => exact h.elim

namespace Job

variable {α β : Type} {d x : Disk} {mid : Disk → Prop} {say : Record → Prop}
  {good good' : α → Disk → Prop}

/-! ## 1. Interrupted runs -/

/-- The disk that is left when a run is cut off: between two requests, or while
directories are made. -/
inductive Interrupted {α : Type} : Job α → Disk → Disk → Prop
  | here (t : Job α) (d : Disk) : Interrupted t d d
  | note {r : Record} {next : Job α} {d x : Disk} (h : Interrupted next d x) :
      Interrupted (.note r next) d x
  | partly {q : Request} {next : q.Reply → Job α} {d x : Disk} (h : d.Partly q x) :
      Interrupted (.ask q next) d x
  | ask {q : Request} {next : q.Reply → Job α} {d x : Disk}
      (h : Interrupted (next (d.answer q).1) (d.answer q).2 x) : Interrupted (.ask q next) d x

/-- The disk after so many requests and records. -/
def left {α : Type} : Nat → Job α → Disk → Disk
  | n + 1, .note _ next, d => left n next d
  | n + 1, .ask q next, d => left n (next (d.answer q).1) (d.answer q).2
  | _, _, d => d

/-- A run may be cut off after any of them. -/
theorem interrupted_left : ∀ (n : Nat) (t : Job α) (d : Disk), t.Interrupted d (t.left n d)
  | 0, t, d => by
      unfold left
      exact .here t d
  | n + 1, .note r next, d => .note (interrupted_left n next d)
  | n + 1, .ask q next, d => .ask (interrupted_left n (next (d.answer q).1) (d.answer q).2)
  | _ + 1, .done a, d => .here (.done a) d
  | _ + 1, .fail e, d => .here (.fail e) d

/-- What was done before a run was cut off is not lost when it goes on. -/
theorem Interrupted.grows_run {t : Job α} (h : t.Interrupted d x) :
    ∀ before, x.Grows (t.runFrom d before).disk := by
  have hrun : ∀ (t : Job α) (d : Disk) (before : Report), d.Grows (t.runFrom d before).disk := by
    intro t d before
    have hends := (ends_iff_run t d before).mp (ends_grows t d)
    split at hends <;> exact hends
  induction h with
  | here t d => exact hrun t d
  | note _ ih => exact fun before => ih _
  | @partly q next d x h =>
    intro before
    cases q with
    | makeDirs p => exact h.2.1.grows.trans (hrun _ _ _)
    | _ => exact h.elim
  | ask _ ih => exact ih

/-! ## 2. Conditions along a job -/

/-- All disks on the way of the job satisfy `mid`, all that it reports satisfies
`say`, and if it ends with a value, the value and the disk satisfy `good`. -/
def Goes (mid : Disk → Prop) (say : Record → Prop) (good : α → Disk → Prop) :
    Job α → Disk → Prop
  | .done a, d => mid d ∧ good a d
  | .fail _, d => mid d
  | .note r next, d => say r ∧ next.Goes mid say good d
  | .ask q next, d => mid d ∧ (∀ x, d.Partly q x → mid x) ∧
      (next (d.answer q).1).Goes mid say good (d.answer q).2

theorem Goes.first : ∀ {t : Job α} {d : Disk}, t.Goes mid say good d → mid d
  | .done _, _, h => h.1
  | .fail _, _, h => h
  | .note _ next, d, h => Goes.first (t := next) (d := d) h.2
  | .ask _ _, _, h => h.1

theorem goes_bind (f : α → Job β) {good : β → Disk → Prop} : ∀ (t : Job α) (d : Disk),
    (t.bind f).Goes mid say good d ↔ t.Goes mid say (fun a d => (f a).Goes mid say good d) d
  | .done _, _ => ⟨fun h => ⟨h.first, h⟩, fun h => h.2⟩
  | .fail _, _ => Iff.rfl
  | .note _ next, d => and_congr_right fun _ => goes_bind f next d
  | .ask q next, d => and_congr_right fun _ => and_congr_right fun _ =>
      goes_bind f (next (d.answer q).1) (d.answer q).2

theorem goes_seq {f : α → Job β} {good : β → Disk → Prop} {t : Job α} :
    (t >>= f).Goes mid say good d ↔ t.Goes mid say (fun a d => (f a).Goes mid say good d) d :=
  goes_bind f t d

theorem Goes.mono (hgood : ∀ a d, good a d → good' a d) :
    ∀ {t : Job α} {d : Disk}, t.Goes mid say good d → t.Goes mid say good' d
  | .done a, d, h => ⟨h.1, hgood a d h.2⟩
  | .fail _, _, h => h
  | .note _ next, d, h => ⟨h.1, Goes.mono hgood (t := next) (d := d) h.2⟩
  | .ask q next, d, h =>
      ⟨h.1, h.2.1, Goes.mono hgood (t := next (d.answer q).1) (d := (d.answer q).2) h.2.2⟩

/-- What a job ends with besides. -/
theorem Goes.and_ends {bad : Failure → Disk → Prop} :
    ∀ {t : Job α} {d : Disk}, t.Goes mid say good d → t.Ends good' bad d →
      t.Goes mid say (fun a d => good a d ∧ good' a d) d
  | .done _, _, h, h' => ⟨h.1, h.2, h'⟩
  | .fail _, _, h, _ => h
  | .note _ next, d, h, h' => ⟨h.1, Goes.and_ends (t := next) (d := d) h.2 h'⟩
  | .ask q next, d, h, h' =>
      ⟨h.1, h.2.1, Goes.and_ends (t := next (d.answer q).1) (d := (d.answer q).2) h.2.2 h'⟩

/-- **A run that is cut off leaves a disk on the way.** -/
theorem Goes.interrupted {t : Job α} (h : t.Goes mid say good d) (hx : t.Interrupted d x) :
    mid x := by
  induction hx with
  | here => exact h.first
  | note _ ih => exact ih h.2
  | partly hx => exact h.2.1 _ hx
  | ask _ ih => exact ih h.2.2

theorem Goes.runFrom : ∀ {t : Job α} {d : Disk} (before : Report), t.Goes mid say good d →
    (∀ a, (t.runFrom d before).value = .ok a → good a (t.runFrom d before).disk) ∧
      ∀ r ∈ (t.runFrom d before).report.records, r ∈ before.records ∨ say r
  | .done a, d, _, h => ⟨fun b hb => by cases hb; exact h.2, fun _ hr => .inl hr⟩
  | .fail _, _, _, _ => ⟨fun _ hb => (by cases hb), fun _ hr => .inl hr⟩
  | .note r next, d, before, h => by
      obtain ⟨hvalue, hrecords⟩ := Goes.runFrom (t := next) (d := d) (before.add r) h.2
      refine ⟨hvalue, fun r' hr' => ?_⟩
      rcases hrecords r' hr' with hr' | hr'
      · rcases List.mem_append.mp hr' with hr' | hr'
        · exact .inl hr'
        · exact .inr (List.mem_singleton.mp hr' ▸ h.1)
      · exact .inr hr'
  | .ask q next, d, before, h =>
      Goes.runFrom (t := next (d.answer q).1) (d := (d.answer q).2) before h.2.2

theorem Goes.of_run_ok {t : Job α} {a : α} (h : t.Goes mid say good d)
    (hv : (t.run d).value = .ok a) : good a (t.run d).disk := (h.runFrom .empty).1 a hv

/-- What a run reports. -/
theorem Goes.records {t : Job α} (h : t.Goes mid say good d) :
    ∀ r ∈ (t.run d).report.records, say r := fun r hr =>
  ((h.runFrom .empty).2 r hr).resolve_left List.not_mem_nil

/-! ## 3. Jobs that look and say nothing -/

/-- All that the job may report, whatever the disk answers. -/
def Says (say : Record → Prop) : Job α → Prop
  | .done _ => True
  | .fail _ => True
  | .note r next => say r ∧ next.Says say
  | .ask _ next => ∀ a, (next a).Says say

theorem Says.bind {f : α → Job β} (hf : ∀ a, (f a).Says say) :
    ∀ {t : Job α}, t.Says say → (t.bind f).Says say
  | .done a, _ => hf a
  | .fail _, _ => trivial
  | .note _ next, h => ⟨h.1, Says.bind hf (t := next) h.2⟩
  | .ask _ next, h => fun a => Says.bind hf (t := next a) (h a)

theorem Says.seq {t : Job α} {f : α → Job β} (h : t.Says say) (hf : ∀ a, (f a).Says say) :
    (t >>= f).Says say := h.bind hf

theorem Says.mono {say' : Record → Prop} (h : ∀ r, say r → say' r) :
    ∀ {t : Job α}, t.Says say → t.Says say'
  | .done _, _ => trivial
  | .fail _, _ => trivial
  | .note _ next, ht => ⟨h _ ht.1, Says.mono h (t := next) ht.2⟩
  | .ask _ next, ht => fun a => Says.mono h (t := next a) (ht a)

/-- All that a job may report it reports, whatever the disks are like. -/
theorem Says.goes : ∀ {t : Job α} {d : Disk}, t.Says say →
    t.Goes (fun _ => True) say (fun _ _ => True) d
  | .done _, _, _ => ⟨trivial, trivial⟩
  | .fail _, _, _ => trivial
  | .note _ next, d, h => ⟨h.1, Says.goes (t := next) (d := d) h.2⟩
  | .ask q next, d, h => ⟨trivial, fun _ _ => trivial,
      Says.goes (t := next (d.answer q).1) (d := (d.answer q).2) (h _)⟩

/-- Of a job's records nothing need be known. -/
theorem says_true : ∀ t : Job α, t.Says fun _ => True
  | .done _ => trivial
  | .fail _ => trivial
  | .note _ next => ⟨trivial, says_true next⟩
  | .ask _ next => fun a => says_true (next a)

theorem says_accept (p : Path) (r : Except Fault α) : (accept p r).Says say := by
  cases r <;> trivial

theorem says_ofExcept (r : Except Failure α) : (ofExcept r).Says say := by
  cases r <;> trivial

/-- The request only looks at the disk. -/
def Looks : Request → Prop
  | .write _ _ | .append _ _ | .makeDirs _ => False
  | _ => True

theorem Looks.answer {q : Request} (h : Looks q) : (d.answer q).2 = d := by
  cases q <;> first | rfl | exact h.elim

theorem Looks.not_partly {q : Request} (h : Looks q) : ¬d.Partly q x := by
  cases q <;> first | exact id | exact h.elim

/-- A job that looks at the disk and reports nothing. -/
def Reads (t : Job α) : Prop := t.Asks Looks ∧ t.Says fun _ => False

theorem Reads.seq {t : Job α} {f : α → Job β} (h : t.Reads) (hf : ∀ a, (f a).Reads) :
    (t >>= f).Reads := ⟨h.1.seq fun a => (hf a).1, h.2.seq fun a => (hf a).2⟩

theorem reads_pure (a : α) : (pure a : Job α).Reads := ⟨trivial, trivial⟩

theorem reads_fail (e : Failure) : (.fail e : Job α).Reads := ⟨trivial, trivial⟩

theorem reads_ofExcept (r : Except Failure α) : (ofExcept r).Reads :=
  ⟨asks_ofExcept r, says_ofExcept r⟩

theorem reads_ask {q : Request} {next : q.Reply → Job α} (hq : Looks q)
    (h : ∀ a, (next a).Reads) : (ask q next).Reads :=
  ⟨⟨hq, fun a => (h a).1⟩, fun a => (h a).2⟩

theorem reads_accept (p : Path) (r : Except Fault α) : (accept p r).Reads :=
  ⟨asks_accept p r, says_accept p r⟩

theorem reads_list (p : Path) : (list p).Reads := reads_ask trivial fun _ => reads_accept p _

theorem reads_read (p : Path) : (read p).Reads := reads_ask trivial fun _ => reads_accept p _

theorem reads_tryText (p : Path) : (tryText p).Reads := reads_ask trivial fun _ => reads_pure _

theorem reads_kind (p : Path) : (kind p).Reads := reads_ask trivial fun _ => reads_pure _

theorem reads_ownKind (p : Path) : (ownKind p).Reads := reads_ask trivial fun _ => reads_pure _

theorem reads_isFile (p : Path) : (isFile p).Reads := reads_ask trivial fun _ => reads_pure _

theorem reads_isDirectory (p : Path) : (isDirectory p).Reads :=
  reads_ask trivial fun _ => reads_pure _

theorem reads_exists (p : Path) : (Job.exists p).Reads := reads_ask trivial fun _ => reads_pure _

/-- Looking leads to no other disk. -/
theorem Reads.goes {bad : Failure → Disk → Prop} : ∀ {t : Job α} {d : Disk}, t.Reads → mid d →
    t.Ends good bad d → t.Goes mid say good d
  | .done _, _, _, hmid, h => ⟨hmid, h⟩
  | .fail _, _, _, hmid, _ => hmid
  | .note _ _, _, ht, _, _ => ht.2.1.elim
  | .ask q next, d, ht, hmid, h => by
      have hq : Looks q := ht.1.1
      rw [ends_ask, hq.answer] at h
      refine ⟨hmid, fun x hx => (hq.not_partly hx).elim, ?_⟩
      rw [hq.answer]
      exact Reads.goes (t := next (d.answer q).1) ⟨ht.1.2 _, ht.2 _⟩ hmid h

/-! ## 4. Jobs that do what others do -/

/-- Whatever is true along the second job is true along the first one. -/
def Follows (t t' : Job α) (d : Disk) : Prop :=
  ∀ mid say good, t'.Goes mid say good d → t.Goes mid say good d

theorem Follows.refl (t : Job α) (d : Disk) : t.Follows t d := fun _ _ _ h => h

/-- A step that the other job does as well. -/
theorem Follows.seq {t t' : Job α} {f f' : α → Job β} (h : t.Follows t' d)
    (hf : t'.Ends (fun a d' => (f a).Follows (f' a) d') (fun _ _ => True) d) :
    (t >>= f).Follows (t' >>= f') d := by
  intro mid say good hgoes
  rw [goes_seq] at hgoes ⊢
  refine h mid say _ ((hgoes.and_ends hf).mono fun a d' h' => ?_)
  exact h'.2 mid say good h'.1

/-- A look at the disk that the other job does without. -/
theorem Follows.look {t : Job α} {t' : Job β} {f : α → Job β} (ht : t.Reads)
    (h : t.Ends (fun a d' => d' = d ∧ (f a).Follows t' d) (fun _ _ => True) d) :
    (t >>= f).Follows t' d := by
  intro mid say good hgoes
  rw [goes_seq]
  refine ht.goes hgoes.first (h.mono (fun a d' h' => ?_) fun _ _ h' => h')
  obtain ⟨rfl, h'⟩ := h'
  exact h' mid say good hgoes

theorem Follows.value {t' : Job β} {f : α → Job β} {a : α} (h : (f a).Follows t' d) :
    (pure a >>= f).Follows t' d := h

theorem follows_fail (e : Failure) (t : Job α) (d : Disk) : (fail e).Follows t d :=
  fun _ _ _ h => h.first

theorem bind_assoc {γ : Type} (f : α → Job β) (g : β → Job γ) : ∀ t : Job α,
    (t.bind f).bind g = t.bind fun a => (f a).bind g
  | .done _ => rfl
  | .fail _ => rfl
  | .note r next => congrArg (note r) (bind_assoc f g next)
  | .ask q next => congrArg (ask q) (funext fun a => bind_assoc f g (next a))

theorem bind_done : ∀ t : Job Unit, (t.bind fun _ => done ()) = t
  | .done _ => rfl
  | .fail _ => rfl
  | .note r next => congrArg (note r) (bind_done next)
  | .ask q next => congrArg (ask q) (funext fun a => bind_done (next a))

theorem each_singleton (f : α → Job Unit) (a : α) : each f [a] = f a := bind_done (f a)

theorem each_append (f : α → Job Unit) (as bs : List α) :
    each f (as ++ bs) = (each f as).bind fun _ => each f bs := by
  induction as with
  | nil => rfl
  | cons a as ih =>
    change (f a).bind (fun _ => each f (as ++ bs)) = _
    rw [ih, ← bind_assoc]
    rfl

theorem each_map {γ : Type} (f : α → Job Unit) (g : γ → α) (cs : List γ) :
    each f (cs.map g) = each (fun c => f (g c)) cs := by
  induction cs with
  | nil => rfl
  | cons c cs ih =>
    change (f (g c)).bind (fun _ => each f (cs.map g)) = _
    rw [ih]
    rfl

/-! ## 5. Jobs that write once -/

/-- Nothing is asked any more, and nothing fails. -/
def Finishes : Job α → Prop
  | .done _ => True
  | .note _ next => next.Finishes
  | _ => False

theorem finishes_report (p : Path) (o : Outcome) (detail : Option String) :
    (report p o detail).Finishes := trivial

/-- Each request makes directories at most, or the job is done after it but for
its records. -/
def WritesLast : Job α → Prop
  | .done _ => True
  | .fail _ => True
  | .note _ next => next.WritesLast
  | .ask q next => ∀ d : Disk, (d.Extends (d.answer q).2 ∧ (next (d.answer q).1).WritesLast) ∨
      (next (d.answer q).1).Finishes

/-- The request writes no file. -/
def Spares : Request → Prop
  | .write _ _ | .append _ _ => False
  | _ => True

theorem Spares.extends {q : Request} (h : Spares q) (d : Disk) : d.Extends (d.answer q).2 := by
  cases q with
  | makeDirs p => exact d.makeDirs_extends p
  | write | append => exact h.elim
  | _ => exact .refl d

theorem Looks.spares {q : Request} (h : Looks q) : Spares q := by
  cases q <;> trivial

theorem Asks.imp {Q Q' : Request → Prop} (h : ∀ q, Q q → Q' q) :
    ∀ {t : Job α}, t.Asks Q → t.Asks Q'
  | .done _, _ => trivial
  | .fail _, _ => trivial
  | .note _ next, ht => Asks.imp h (t := next) ht
  | .ask q next, ht => ⟨h q ht.1, fun a => Asks.imp h (t := next a) (ht.2 a)⟩

/-- What comes before the only write. -/
theorem WritesLast.after {f : α → Job β} (hf : ∀ a, (f a).WritesLast) :
    ∀ {t : Job α}, t.Asks Spares → (t >>= f).WritesLast
  | .done a, _ => hf a
  | .fail _, _ => trivial
  | .note _ next, h => WritesLast.after hf (t := next) h
  | .ask _ next, h => fun d => .inl ⟨h.1.extends d, WritesLast.after hf (t := next _) (h.2 _)⟩

theorem Reads.then_writes {t : Job α} {f : α → Job β} (h : t.Reads)
    (hf : ∀ a, (f a).WritesLast) : (t >>= f).WritesLast :=
  WritesLast.after hf (h.1.imp fun _ hq => hq.spares)

theorem Finishes.bind {f : α → Job β} (hf : ∀ a, (f a).Finishes) :
    ∀ {t : Job α}, t.Finishes → (t.bind f).Finishes
  | .done a, _ => hf a
  | .note _ next, h => Finishes.bind hf (t := next) h

theorem Finishes.writesLast : ∀ {t : Job α}, t.Finishes → t.WritesLast
  | .done _, _ => trivial
  | .note _ next, h => Finishes.writesLast (t := next) h

/-- What comes behind the only write. -/
theorem WritesLast.before {f : α → Job β} (hf : ∀ a, (f a).Finishes) :
    ∀ {t : Job α}, t.WritesLast → (t >>= f).WritesLast
  | .done a, _ => (hf a).writesLast
  | .fail _, _ => trivial
  | .note _ next, h => WritesLast.before hf (t := next) h
  | .ask _ next, h => fun d => (h d).imp
      (fun h => ⟨h.1, WritesLast.before hf (t := next _) h.2⟩) fun h => h.bind hf

theorem writesLast_write (p : Path) (text : String) : (write p text).WritesLast := by
  intro d
  change (d.Extends (d.settle _).2 ∧ (accept p (d.settle _).1).WritesLast) ∨
    (accept p (d.settle _).1).Finishes
  cases d.changeAt p fun _ => .text text with
  | ok d' => exact .inr trivial
  | error f => exact .inl ⟨.refl d, trivial⟩

theorem writesLast_append (p : Path) (text : String) : (append p text).WritesLast := by
  intro d
  change (d.Extends (d.settle _).2 ∧ (accept p (d.settle _).1).WritesLast) ∨
    (accept p (d.settle _).1).Finishes
  cases d.changeAt p fun old => (old.getD (.text "")).append text with
  | ok d' => exact .inr trivial
  | error f => exact .inl ⟨.refl d, trivial⟩

/-- A job that is done but for its records stays where it is. -/
theorem Finishes.goes {bad : Failure → Disk → Prop} : ∀ {t : Job α} {d : Disk}, t.Finishes →
    t.Says say → t.Ends (fun a d' => mid d' ∧ good a d') bad d → t.Goes mid say good d
  | .done _, _, _, _, h => h
  | .note _ next, d, ht, hsay, h => ⟨hsay.1, Finishes.goes (t := next) (d := d) ht hsay.2 h⟩

/-- **A job that writes once passes through disks with more directories**, until it
writes and ends. -/
theorem WritesLast.goes {d₀ : Disk}
    (hmid : ∀ x, d₀.Extends x → x.Grounded ∧ x.Distinct → mid x) :
    ∀ {t : Job α} {d : Disk}, t.WritesLast → t.Says say → d₀.Extends d →
      d.Grounded ∧ d.Distinct → t.Ends (fun a d' => mid d' ∧ good a d') (fun _ _ => True) d →
        t.Goes mid say good d
  | .done _, _, _, _, _, _, h => h
  | .fail _, _, _, _, hext, hd, _ => hmid _ hext hd
  | .note _ next, d, ht, hsay, hext, hd, h =>
      ⟨hsay.1, WritesLast.goes hmid (t := next) (d := d) ht hsay.2 hext hd h⟩
  | .ask q next, d, ht, hsay, hext, hd, h => by
      refine ⟨hmid d hext hd, fun x hx => hmid x (hext.trans hx.extends) hx.sound, ?_⟩
      rcases ht d with ⟨hext', hrest⟩ | hrest
      · exact WritesLast.goes hmid hrest (hsay _) (hext.trans hext')
          ⟨Disk.answer_grounded hd.1 q, Disk.answer_distinct hd.2 q⟩ h
      · exact hrest.goes (hsay _) h

end Job

end Scaffold
