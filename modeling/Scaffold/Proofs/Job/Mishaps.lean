import Scaffold.Proofs.Job.Trails

/-!
# Mishaps

A disk may deny what it is asked for, although it would do it another time.

* `Disk.Denies` -- how it may do so: **a write happens wholly or not at all**, and of the
  directories to be made some may be there;
* `Job.Fares` -- how a run may end on which any request may be denied, and on which what was
  read may turn out to be of no use; `fares_run`: a run without a mishap is one of them, and
  `fares_spoilt`: so is one that is computed with a mishap at a given place;
* `Job.Bears` -- a condition on how a job ends **whatever befalls it**; `bears_bind` takes a job
  apart, and `Bears.fares` says what the condition means for runs.
-/
namespace Scaffold

/-! ## 1. Requests that are denied -/

/-- The disk may deny the request with this answer, and be like this then. What is only looked
up is not denied. -/
def Disk.Denies (d : Disk) : (q : Request) → q.Reply → Disk → Prop
  | .kind _, _, _ | .ownKind _, _, _ | .canonical _, _, _ => False
  | .list _, a, x => (∃ f, a = .error f) ∧ x = d
  | .read _, a, x => (∃ f, a = .error f) ∧ x = d
  | .write _ _, a, x => (∃ f, a = .error f) ∧ x = d
  | .append _ _, a, x => (∃ f, a = .error f) ∧ x = d
  | .makeDirs p, a, x => (∃ f, a = .error f) ∧ (x = d ∨ d.Partly (.makeDirs p) x)

/-- The answer that denies the request with a fault. -/
def Request.denial (f : Fault) : (q : Request) → Option q.Reply
  | .kind _ | .ownKind _ | .canonical _ => none
  | .list _ | .read _ | .write _ _ | .append _ _ | .makeDirs _ => some (.error f)

/-- A disk that denies a request may be as it was. -/
theorem Disk.denies_denial {f : Fault} {q : Request} {a : q.Reply} (d : Disk)
    (h : q.denial f = some a) : d.Denies q a d := by
  cases q with
  | kind p | ownKind p | canonical p => cases h
  | list p | read p | write p t | append p t => exact ⟨⟨f, (Option.some.inj h).symm⟩, rfl⟩
  | makeDirs p => exact ⟨⟨f, (Option.some.inj h).symm⟩, .inl rfl⟩

/-- A denied request adds directories at most. -/
theorem Disk.Denies.extends {d x : Disk} {q : Request} {a : q.Reply} (h : d.Denies q a x) :
    d.Extends x := by
  cases q with
  | kind p | ownKind p | canonical p => exact h.elim
  | list p | read p | write p t | append p t => exact h.2 ▸ .refl d
  | makeDirs p =>
    rcases h.2 with rfl | hx
    · exact .refl _
    · exact hx.extends

theorem Disk.Denies.grounded {d x : Disk} {q : Request} {a : q.Reply} (h : d.Denies q a x)
    (hd : d.Grounded) : x.Grounded := by
  cases q with
  | kind p | ownKind p | canonical p => exact h.elim
  | list p | read p | write p t | append p t => exact h.2 ▸ hd
  | makeDirs p =>
    rcases h.2 with rfl | hx
    · exact hd
    · exact hx.sound.1

namespace Job

variable {α β : Type} {d d' : Disk} {r r' : Report}

/-! ## 2. Runs with mishaps -/

/-- The job may end like this, after what has been reported before. -/
inductive Fares {α : Type} : Job α → Disk → Report → Ended α → Prop
  | done (a : α) (d : Disk) (r : Report) : Fares (.done a) d r ⟨.ok a, r, d⟩
  | fail (e : Failure) (d : Disk) (r : Report) : Fares (.fail e) d r ⟨.error e, r, d⟩
  | note {x : Record} {next : Job α} {d : Disk} {r : Report} {ran : Ended α}
      (h : Fares next d (r.add x) ran) : Fares (.note x next) d r ran
  | answered {q : Request} {next : q.Reply → Job α} {d : Disk} {r : Report} {ran : Ended α}
      (h : Fares (next (d.answer q).1) (d.answer q).2 r ran) : Fares (.ask q next) d r ran
  | denied {q : Request} {next : q.Reply → Job α} {d x : Disk} {a : q.Reply} {r : Report}
      {ran : Ended α} (hq : d.Denies q a x) (h : Fares (next a) x r ran) :
      Fares (.ask q next) d r ran
  /-- What was read is of no use. -/
  | useless {q : Request} {next : q.Reply → Job α} {p : Path} (hq : q = .read p) (e : Failure)
      (d : Disk) (r : Report) : Fares (.ask q next) d r ⟨.error e, r, d⟩

theorem fares_runFrom : ∀ (t : Job α) (d : Disk) (r : Report), t.Fares d r (t.runFrom d r)
  | .done a, d, r => .done a d r
  | .fail e, d, r => .fail e d r
  | .note x next, d, r => .note (fares_runFrom next d (r.add x))
  | .ask q next, d, r => .answered (fares_runFrom (next (d.answer q).1) (d.answer q).2 r)

/-- **A run may go without a mishap.** -/
theorem fares_run (t : Job α) (d : Disk) : t.Fares d .empty (t.run d) := fares_runFrom t d .empty

/-- A way to end, with its value spelled out. -/
theorem Fares.of_value {t : Job α} {ran : Ended α} {v : Except Failure α}
    (h : t.Fares d r ran) (hv : ran.value = v) : t.Fares d r ⟨v, ran.report, ran.disk⟩ := by
  subst hv
  exact h

/-- The run on which the request after so many is denied with the fault, if it can be. -/
def spoilt {α : Type} (f : Fault) : Nat → Job α → Disk → Report → Ended α
  | _, .done a, d, r => ⟨.ok a, r, d⟩
  | _, .fail e, d, r => ⟨.error e, r, d⟩
  | n, .note x next, d, r => spoilt f n next d (r.add x)
  | n + 1, .ask q next, d, r => spoilt f n (next (d.answer q).1) (d.answer q).2 r
  | 0, .ask q next, d, r =>
    match q.denial f with
    | some a => (next a).runFrom d r
    | none => (next (d.answer q).1).runFrom (d.answer q).2 r

theorem fares_spoilt (f : Fault) : ∀ (n : Nat) (t : Job α) (d : Disk) (r : Report),
    t.Fares d r (t.spoilt f n d r)
  | n, .done a, d, r => by
      unfold spoilt
      exact .done a d r
  | n, .fail e, d, r => by
      unfold spoilt
      exact .fail e d r
  | n, .note x next, d, r => by
      unfold spoilt
      exact .note (fares_spoilt f n next d (r.add x))
  | n + 1, .ask q next, d, r => .answered (fares_spoilt f n (next (d.answer q).1) (d.answer q).2 r)
  | 0, .ask q next, d, r => by
      unfold spoilt
      split
      · rename_i a ha
        exact .denied (d.denies_denial ha) (fares_runFrom (next a) d r)
      · exact .answered (fares_runFrom _ _ r)

/-! ## 3. Conditions whatever happens -/

variable {good good' : α → Report → Disk → Prop} {bad bad' : Failure → Report → Disk → Prop}

/-- Whatever is denied or of no use, the job ends with a value, a report and a disk that
satisfy `good`, or with a failure, a report and a disk that satisfy `bad`. -/
def Bears (good : α → Report → Disk → Prop) (bad : Failure → Report → Disk → Prop) :
    Job α → Report → Disk → Prop
  | .done a, r, d => good a r d
  | .fail e, r, d => bad e r d
  | .note x next, r, d => next.Bears good bad (r.add x) d
  | .ask q next, r, d => (next (d.answer q).1).Bears good bad r (d.answer q).2 ∧
      (∀ a x, d.Denies q a x → (next a).Bears good bad r x) ∧
        ∀ p, q = .read p → ∀ e, bad e r d

/-- **What a job ends with whatever befalls it.** -/
theorem Bears.fares {t : Job α} {ran : Ended α} (h : t.Bears good bad r d)
    (hran : t.Fares d r ran) :
    match ran.value with
    | .ok a => good a ran.report ran.disk
    | .error e => bad e ran.report ran.disk := by
  induction hran with
  | done | fail => exact h
  | note _ ih => exact ih h
  | answered _ ih => exact ih h.1
  | denied hq _ ih => exact ih (h.2.1 _ _ hq)
  | useless hq e => exact h.2.2 _ hq e

theorem Bears.of_error {t : Job α} {e : Failure} (h : t.Bears good bad r d)
    (hran : t.Fares d r ⟨.error e, r', d'⟩) : bad e r' d' := h.fares hran

/-- A job that goes without a mishap ends no other way. -/
theorem Bears.ends {good : α → Disk → Prop} {bad : Failure → Disk → Prop} :
    ∀ {t : Job α} {r : Report} {d : Disk}, t.Bears (fun a _ => good a) (fun e _ => bad e) r d →
      t.Ends good bad d
  | .done _, _, _, h => h
  | .fail _, _, _, h => h
  | .note x next, r, _, h => Bears.ends (t := next) (r := r.add x) h
  | .ask q next, _, d, h => Bears.ends (t := next (d.answer q).1) h.1

theorem bears_bind (f : α → Job β) {good : β → Report → Disk → Prop} :
    ∀ (t : Job α) (r : Report) (d : Disk), (t.bind f).Bears good bad r d ↔
      t.Bears (fun a r d => (f a).Bears good bad r d) bad r d
  | .done _, _, _ => Iff.rfl
  | .fail _, _, _ => Iff.rfl
  | .note x next, r, d => bears_bind f next (r.add x) d
  | .ask q next, r, d => and_congr (bears_bind f (next (d.answer q).1) r (d.answer q).2) <|
      and_congr_left' <| forall_congr' fun a => forall_congr' fun x => imp_congr_right fun _ =>
        bears_bind f (next a) r x

theorem bears_seq {f : α → Job β} {good : β → Report → Disk → Prop} {t : Job α} :
    (t >>= f).Bears good bad r d ↔ t.Bears (fun a r d => (f a).Bears good bad r d) bad r d :=
  bears_bind f t r d

theorem Bears.mono (hgood : ∀ a r d, good a r d → good' a r d)
    (hbad : ∀ e r d, bad e r d → bad' e r d) :
    ∀ {t : Job α} {r : Report} {d : Disk}, t.Bears good bad r d → t.Bears good' bad' r d
  | .done a, r, d, h => hgood a r d h
  | .fail e, r, d, h => hbad e r d h
  | .note x next, r, _, h => Bears.mono hgood hbad (t := next) (r := r.add x) h
  | .ask q next, r, d, h =>
      ⟨Bears.mono hgood hbad (t := next (d.answer q).1) h.1,
        fun a x hx => Bears.mono hgood hbad (t := next a) (h.2.1 a x hx),
        fun p hp e => hbad e r d (h.2.2 p hp e)⟩

theorem Bears.and : ∀ {t : Job α} {r : Report} {d : Disk}, t.Bears good bad r d →
    t.Bears good' bad' r d → t.Bears (fun a r d => good a r d ∧ good' a r d)
      (fun e r d => bad e r d ∧ bad' e r d) r d
  | .done _, _, _, h, h' => ⟨h, h'⟩
  | .fail _, _, _, h, h' => ⟨h, h'⟩
  | .note x next, r, _, h, h' => Bears.and (t := next) (r := r.add x) h h'
  | .ask q next, _, d, h, h' =>
      ⟨Bears.and (t := next (d.answer q).1) h.1 h'.1,
        fun a x hx => Bears.and (t := next a) (h.2.1 a x hx) (h'.2.1 a x hx),
        fun p hp e => ⟨h.2.2 p hp e, h'.2.2 p hp e⟩⟩

/-- How a job ends is how it may end. -/
theorem bears_fares : ∀ (t : Job α) (r : Report) (d : Disk),
    t.Bears (fun a r' d' => t.Fares d r ⟨.ok a, r', d'⟩)
      (fun e r' d' => t.Fares d r ⟨.error e, r', d'⟩) r d
  | .done a, r, d => .done a d r
  | .fail e, r, d => .fail e d r
  | .note x next, r, d => (bears_fares next (r.add x) d).mono (fun _ _ _ => .note)
      fun _ _ _ => .note
  | .ask q next, r, d =>
      ⟨(bears_fares (next (d.answer q).1) r (d.answer q).2).mono (fun _ _ _ => .answered)
          fun _ _ _ => .answered,
        fun a x hx => (bears_fares (next a) r x).mono (fun _ _ _ => .denied hx)
          fun _ _ _ => .denied hx,
        fun _ hp e => .useless hp e d r⟩

/-- **What every answer and every denial keeps, every job keeps.** -/
theorem bears_keeps {I : Disk → Prop} (hanswer : ∀ d q, I d → I (d.answer q).2)
    (hdeny : ∀ d q a x, I d → d.Denies q a x → I x) :
    ∀ (t : Job α) (r : Report) (d : Disk), I d → t.Bears (fun _ _ => I) (fun _ _ => I) r d
  | .done _, _, _, hd => hd
  | .fail _, _, _, hd => hd
  | .note x next, r, d, hd => bears_keeps hanswer hdeny next (r.add x) d hd
  | .ask q next, r, d, hd =>
      ⟨bears_keeps hanswer hdeny (next (d.answer q).1) r (d.answer q).2 (hanswer d q hd),
        fun a x hx => bears_keeps hanswer hdeny (next a) r x (hdeny d q a x hd hx),
        fun _ _ _ => hd⟩

/-- **Whatever befalls a job, the disk grows.** -/
theorem bears_grows (t : Job α) (r : Report) (d : Disk) :
    t.Bears (fun _ _ => d.Grows) (fun _ _ => d.Grows) r d :=
  bears_keeps (fun d' q h => h.trans (d'.answer_grows q))
    (fun _ _ _ _ h hx => h.trans hx.extends.grows) t r d (.refl d)

/-! ## 4. Single steps -/

/-- The request is never denied. -/
def Sure : Request → Prop
  | .kind _ | .ownKind _ | .canonical _ => True
  | _ => False

/-- Where nothing can be denied a job ends as it does without a mishap. -/
theorem Ends.bears : ∀ {t : Job α} {d : Disk}, t.Asks Sure → t.Says (fun _ => False) →
    t.Ends (fun a d' => good a r d') (fun e d' => bad e r d') d → t.Bears good bad r d
  | .done _, _, _, _, h => h
  | .fail _, _, _, _, h => h
  | .note _ _, _, _, hsay, _ => hsay.1.elim
  | .ask q next, d, hask, hsay, h => by
      refine ⟨Ends.bears (hask.2 _) (hsay _) h, fun a x hx => ?_, fun p hp => ?_⟩
      · have hq := hask.1
        cases q <;> first | exact hx.elim | exact hq.elim
      · subst hp
        exact hask.1.elim

/-- A look at the disk that cannot be denied. -/
theorem bears_look {t : Job α} {a : α} (hask : t.Asks Sure) (hreads : t.Reads)
    (hv : (t.run d).value = .ok a) (h : good a r d) : t.Bears good bad r d := by
  refine Ends.bears hask hreads.2 ((ends_of_run hv).mono (fun b d' hb => ?_) fun _ _ hb => hb.elim)
  obtain ⟨rfl, rfl⟩ := hb
  rwa [hreads.disk]

theorem bears_exists {p : Path} {good : Bool → Report → Disk → Prop}
    (h : good (d.kindAt true p).isSome r d) : (Job.exists p).Bears good bad r d :=
  Ends.bears ⟨trivial, fun _ => trivial⟩ (fun _ => trivial) h

theorem bears_isFile {p : Path} {good : Bool → Report → Disk → Prop}
    (h : good (d.kindAt true p == some .file) r d) : (isFile p).Bears good bad r d :=
  Ends.bears ⟨trivial, fun _ => trivial⟩ (fun _ => trivial) h

theorem bears_ofExcept {v : Except Failure α} (h : match v with
    | .ok a => good a r d
    | .error e => bad e r d) : (ofExcept v).Bears good bad r d := by
  cases v <;> exact h

theorem bears_accept {p : Path} {v : Except Fault α} (hgood : ∀ a, v = .ok a → good a r d)
    (hbad : ∀ e, bad e r d) : (accept p v).Bears good bad r d := by
  cases v with
  | ok a => exact hgood a rfl
  | error f => exact hbad _

/-- What is read is what is there, if anything is read. -/
theorem bears_read {p : Path} {good : Content → Report → Disk → Prop}
    (hgood : ∀ c, d.readAt p = .ok c → good c r d) (hbad : ∀ e, bad e r d) :
    (read p).Bears good bad r d := by
  refine ⟨bears_accept hgood hbad, fun a x hx => ?_, fun _ _ => hbad⟩
  obtain ⟨⟨f, rfl⟩, rfl⟩ := hx
  exact hbad _

/-- A file is written, or nothing happens. -/
theorem bears_write {p : Path} {text : String} {good : Unit → Report → Disk → Prop}
    (hgood : ∀ d', d.changeAt p (fun _ => .text text) = .ok d' → good () r d')
    (hbad : ∀ e, bad e r d) : (write p text).Bears good bad r d := by
  refine ⟨?_, fun a x hx => ?_, fun _ hp => by cases hp⟩
  · change (accept p (d.settle _).1).Bears good bad r (d.settle _).2
    cases h : d.changeAt p fun _ => .text text with
    | ok d' => exact hgood d' h
    | error f => exact hbad _
  · obtain ⟨⟨f, rfl⟩, rfl⟩ := hx
    exact hbad _

/-- Directories are made, or some of them. -/
theorem bears_makeDirs {p : Path} {good : Unit → Report → Disk → Prop}
    (hgood : good () r (d.makeDirs p).2)
    (hbad : ∀ e x, d.Extends x → x.Extends (d.makeDirs p).2 → bad e r x) :
    (makeDirs p).Bears good bad r d := by
  refine ⟨bears_accept (fun _ _ => hgood) fun e => hbad e _ (d.makeDirs_extends p) (.refl _),
    fun a x hx => ?_, fun _ hp => by cases hp⟩
  obtain ⟨⟨f, rfl⟩, rfl | hx⟩ := hx
  · exact hbad _ _ (.refl _) (Disk.makeDirs_extends _ p)
  · exact hbad _ _ hx.1 hx.2.1

end Job

end Scaffold
