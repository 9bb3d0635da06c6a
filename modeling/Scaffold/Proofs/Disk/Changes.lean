import Scaffold.Proofs.Disk.Resolution

/-!
# What requests do to a disk

* `changeAt_cases` -- writing fills one gap or changes one file;
  `readAt_changeAt`: **what was written is read back** at the same path;
* `makeDirs_extends` -- making directories adds directories and nothing else;
* `answer_grows`, `answer_grounded` -- no request loses anything, and none puts
  anything outside a directory;
* `answer_other` -- what is changed under one name leaves other names alone.
-/
namespace Scaffold.Disk

variable {d d' : Disk} {p : Path} {follows : Bool} {l : Location}

/-! ## 1. Reading -/

theorem resolve_eq_ok_iff {x : Place} :
    d.resolve follows p = .ok x ↔ p.text ≠ "" ∧ Way d follows mostLinks [] p.segments x := by
  unfold resolve
  by_cases h : p.text = ""
  · simp [h]
  · have : p.text.isEmpty = false := by simpa using h
    rw [this]
    simp [h, resolveFrom_eq_ok_iff]

theorem locate_eq_ok_iff : d.locate follows p = .ok l ↔ d.resolve follows p = .ok (.found l) := by
  unfold locate
  split <;> rename_i h <;> simp [h]

theorem locate_grows (hg : d.Grows d') (h : d.locate follows p = .ok l) :
    d'.locate follows p = .ok l := by
  rw [locate_eq_ok_iff, resolve_eq_ok_iff] at h ⊢
  exact ⟨h.1, h.2.found_grows hg⟩

theorem kindAt_eq_some_iff {k : EntryKind} : d.kindAt follows p = some k ↔
    ∃ l e, d.locate follows p = .ok l ∧ d.find? l = some e ∧ e.kind = k := by
  unfold kindAt
  split
  · rename_i l hl
    simp only [Option.map_eq_some_iff, hl, Except.ok.injEq, exists_and_left, exists_eq_left']
  · rename_i f hf
    simp [hf]

/-- What there is at a path stays of its kind. -/
theorem kindAt_grows (hg : d.Grows d') {k : EntryKind} (h : d.kindAt follows p = some k) :
    d'.kindAt follows p = some k := by
  rw [kindAt_eq_some_iff] at h ⊢
  obtain ⟨l, e, hl, he, hk⟩ := h
  obtain ⟨e', he', hb⟩ := hg l e he
  exact ⟨l, e', locate_grows hg hl, he', hb.kind_eq.trans hk⟩

/-- What there is below a path, the path leads to a directory. -/
theorem kindAt_directory {r : Bool} {A B : List String} {k : EntryKind}
    (hA : (⟨r, A⟩ : Path).text ≠ "") (hB : B ≠ [])
    (h : d.kindAt true ⟨r, A ++ B⟩ = some k) : d.kindAt true ⟨r, A⟩ = some .directory := by
  obtain ⟨l, e, hl, _, _⟩ := kindAt_eq_some_iff.mp h
  rw [locate_eq_ok_iff, resolve_eq_ok_iff] at hl
  obtain ⟨k, hk⟩ := hl.2.concat_inv hB (.inr fun _ _ => by simp)
  obtain ⟨s, B', rfl⟩ := List.exists_cons_of_ne_nil hB
  obtain ⟨m, _, happend⟩ := hk.append
  have hrest := resolveFrom_eq_ok_iff.mpr hl.2
  rw [happend true (s :: B') (by simp), resolveFrom_eq_ok_iff] at hrest
  refine kindAt_eq_some_iff.mpr ⟨k, .directory, ?_, hrest.directory, rfl⟩
  rw [locate_eq_ok_iff, resolve_eq_ok_iff]
  exact ⟨hA, hk⟩

theorem readAt_eq_ok_iff {c : Content} :
    d.readAt p = .ok c ↔ ∃ l, d.locate true p = .ok l ∧ d.find? l = some (.file c) := by
  unfold readAt
  split
  · rename_i f hf
    simp [hf]
  · rename_i l hl
    simp only [hl, Except.ok.injEq, exists_eq_left']
    split
    · rename_i c' he
      simp [he]
    · rename_i he
      simp [he]
    · rename_i hfile _
      simpa using hfile c

theorem listAt_eq_ok_iff {es : List (String × EntryKind)} : d.listAt p = .ok es ↔
    ∃ l, d.locate true p = .ok l ∧ d.find? l = some .directory ∧ es = d.children l := by
  unfold listAt
  split
  · rename_i f hf
    simp [hf]
  · rename_i l hl
    simp only [hl, Except.ok.injEq, exists_eq_left']
    split
    · rename_i he
      simp [he, eq_comm]
    · rename_i he
      simpa using fun h => absurd h he

/-! ## 2. Writing -/

variable {content : Option Content → Content}

/-- Writing fills the gap that a path leads to, or changes the file there. -/
theorem changeAt_cases (h : d.changeAt p content = .ok d') :
    (∃ k s, d.resolve true p = .ok (.missing k s) ∧
      d' = d.put (k ++ [s]) (.file (content none))) ∨
    (∃ l c, d.resolve true p = .ok (.found l) ∧ d.find? l = some (.file c) ∧
      d' = d.put l (.file (content (some c)))) := by
  unfold changeAt at h
  split at h
  · cases h
  · rename_i k s hr
    cases h
    exact .inl ⟨k, s, hr, rfl⟩
  · cases h
  · rename_i l hr
    split at h
    · rename_i c he
      cases h
      exact .inr ⟨l, c, hr, he, rfl⟩
    · cases h
    · cases h

theorem ne_nil_of_file {c : Content} (h : d.find? l = some (.file c)) : l ≠ [] := by
  rintro rfl
  simp at h

theorem changeAt_grows (h : d.changeAt p content = .ok d') : d.Grows d' := by
  rcases changeAt_cases h with ⟨k, s, hr, rfl⟩ | ⟨l, c, _, he, rfl⟩
  · have hgap := (resolve_eq_ok_iff.mp hr).2.gap_inv (.inl rfl)
    refine grows_put d (by simp) fun old hold => ?_
    rw [hgap.2.2] at hold
    cases hold
  · refine grows_put d (ne_nil_of_file he) fun old hold => ?_
    rw [he] at hold
    cases hold
    exact .inr ⟨rfl, rfl⟩

theorem changeAt_grounded (hd : d.Grounded) (h : d.changeAt p content = .ok d') :
    d'.Grounded := by
  rcases changeAt_cases h with ⟨k, s, hr, rfl⟩ | ⟨l, c, _, he, rfl⟩
  · obtain ⟨hk, _, hgap⟩ := (resolve_eq_ok_iff.mp hr).2.gap_inv (.inl rfl)
    exact hd.put hk (by simp [hgap])
  · rcases l.eq_nil_or_concat with rfl | ⟨l', s, rfl⟩
    · simp at he
    · rw [List.concat_eq_append] at he ⊢
      exact hd.put (hd l' s _ he) (by simp [he])

theorem changeAt_linkless (hd : d.Linkless) (h : d.changeAt p content = .ok d') :
    d'.Linkless := by
  rcases changeAt_cases h with ⟨k, s, _, rfl⟩ | ⟨l, c, _, he, rfl⟩
  · exact hd.put (by simp) (by simp [Entry.kind])
  · exact hd.put (ne_nil_of_file he) (by simp [Entry.kind])

/-- Where a path leads after something was written there. -/
theorem changeAt_located (h : d.changeAt p content = .ok d') :
    ∃ G, G ≠ [] ∧ d'.locate true p = .ok G ∧
      d' = d.put G (.file (content (d.readAt p).toOption)) ∧
      (d.find? G = none ∨ ∃ c, d.find? G = some (.file c) ∧ d.readAt p = .ok c) := by
  have hg := changeAt_grows h
  rcases changeAt_cases h with ⟨k, s, hr, rfl⟩ | ⟨l, c, hr, he, rfl⟩
  · have hnone : (d.readAt p).toOption = none := by
      cases hread : d.readAt p with
      | error f => rfl
      | ok c =>
        obtain ⟨l, hl, _⟩ := readAt_eq_ok_iff.mp hread
        rw [locate_eq_ok_iff, hr] at hl
        cases hl
    rw [resolve_eq_ok_iff] at hr
    refine ⟨k ++ [s], by simp, ?_, by rw [hnone], .inl (hr.2.gap_inv (.inl rfl)).2.2⟩
    rw [locate_eq_ok_iff, resolve_eq_ok_iff]
    exact ⟨hr.1, hr.2.fill hg (find?_put_self d k s _) (by simp)⟩
  · have hsome : d.readAt p = .ok c := readAt_eq_ok_iff.mpr ⟨l, locate_eq_ok_iff.mpr hr, he⟩
    refine ⟨l, ne_nil_of_file he, locate_grows hg (locate_eq_ok_iff.mpr hr), ?_,
      .inr ⟨c, he, hsome⟩⟩
    rw [hsome]
    rfl

/-- **What was written is read back.** -/
theorem readAt_changeAt (h : d.changeAt p content = .ok d') :
    d'.readAt p = .ok (content (d.readAt p).toOption) := by
  obtain ⟨G, hG, hl, hd', _⟩ := changeAt_located h
  refine readAt_eq_ok_iff.mpr ⟨G, hl, ?_⟩
  rw [hd', find?_put d hG, if_pos rfl]

/-! ## 3. Making directories -/

/-- The second disk has some directories more than the first, and nothing
else. -/
def Extends (d d' : Disk) : Prop :=
  ∀ l, d'.find? l = d.find? l ∨ (d.find? l = none ∧ d'.find? l = some .directory)

theorem Extends.refl (d : Disk) : d.Extends d := fun _ => .inl rfl

theorem Extends.trans {a b c : Disk} (h : a.Extends b) (h' : b.Extends c) : a.Extends c := by
  intro l
  rcases h l with hl | ⟨hl, hl'⟩ <;> rcases h' l with hm | ⟨hm, hm'⟩
  · exact .inl (hm.trans hl)
  · exact .inr ⟨hl ▸ hm, hm'⟩
  · exact .inr ⟨hl, hm.trans hl'⟩
  · rw [hl'] at hm
    cases hm

theorem Extends.grows (h : d.Extends d') : d.Grows d' := by
  intro l e he
  rcases h l with hl | ⟨hl, _⟩
  · exact ⟨e, hl.trans he, .inl rfl⟩
  · rw [he] at hl
    cases hl

/-- The files are the same. -/
theorem Extends.file_iff (h : d.Extends d') (c : Content) :
    d'.find? l = some (.file c) ↔ d.find? l = some (.file c) := by
  rcases h l with hl | ⟨hl, hl'⟩
  · rw [hl]
  · simp [hl, hl']

theorem makeDir_cases (h : d.makeDir p = .ok d') :
    ∃ k s, (d.resolve false p = .ok (.missing k s) ∨ d.resolve false p = .ok (.missingSlash k s)) ∧
      d' = d.put (k ++ [s]) .directory := by
  unfold makeDir at h
  split at h
  · cases h
  · cases h
  · rename_i k s hr
    cases h
    exact ⟨k, s, .inl hr, rfl⟩
  · rename_i k s hr
    cases h
    exact ⟨k, s, .inr hr, rfl⟩

/-- The gap that a new directory fills. -/
theorem makeDir_gap (h : d.makeDir p = .ok d') :
    ∃ k s, d.find? k = some .directory ∧ d.find? (k ++ [s]) = none ∧
      d' = d.put (k ++ [s]) .directory := by
  obtain ⟨k, s, hr, rfl⟩ := makeDir_cases h
  rcases hr with hr | hr
  · obtain ⟨hk, _, hgap⟩ := (resolve_eq_ok_iff.mp hr).2.gap_inv (.inl rfl)
    exact ⟨k, s, hk, hgap, rfl⟩
  · obtain ⟨hk, _, hgap⟩ := (resolve_eq_ok_iff.mp hr).2.gap_inv (.inr rfl)
    exact ⟨k, s, hk, hgap, rfl⟩

theorem makeDir_extends (h : d.makeDir p = .ok d') : d.Extends d' := by
  obtain ⟨k, s, _, hgap, rfl⟩ := makeDir_gap h
  intro l
  rw [find?_put d (by simp)]
  by_cases hl : l = k ++ [s]
  · exact .inr ⟨hl ▸ hgap, by rw [if_pos hl]⟩
  · exact .inl (by rw [if_neg hl])

theorem makeDir_grounded (hd : d.Grounded) (h : d.makeDir p = .ok d') : d'.Grounded := by
  obtain ⟨k, s, hk, _, rfl⟩ := makeDir_gap h
  exact hd.put hk fun _ => rfl

/-- What holds of a disk and survives every new directory survives `orThere`. -/
theorem orThere_keeps {I : Disk → Prop} {r : Except Fault Disk} (hd : I d)
    (h : ∀ d', r = .ok d' → I d') : I (d.orThere p r).2 := by
  unfold orThere
  split
  · exact h _ rfl
  · split <;> exact hd

/-- What holds of a disk and survives every new directory survives
`makeDirs`. -/
theorem makeDirs_keeps {I : Disk → Prop} (hI : ∀ d q d', I d → d.makeDir q = .ok d' → I d')
    (d : Disk) (p : Path) (hd : I d) : I (d.makeDirs p).2 := by
  fun_induction makeDirs d p with
  | case1 p _ _ => exact hd
  | case2 p _ q _ f d₁ hq ih => simpa [hq] using ih
  | case3 p _ q _ u d₁ hq ih =>
    have hd₁ : I d₁ := by simpa [hq] using ih
    exact orThere_keeps hd₁ fun d' h => hI d₁ p d' hd₁ h
  | case4 p _ => exact orThere_keeps hd fun d' h => hI d p d' hd h

theorem makeDirs_extends (d : Disk) (p : Path) : d.Extends (d.makeDirs p).2 :=
  makeDirs_keeps (I := d.Extends) (fun _ _ _ h h' => h.trans (makeDir_extends h')) d p (.refl d)

theorem makeDirs_grounded (hd : d.Grounded) (p : Path) : (d.makeDirs p).2.Grounded :=
  makeDirs_keeps (fun _ _ _ h h' => makeDir_grounded h h') d p hd

theorem makeDirs_linkless (hd : d.Linkless) (p : Path) : (d.makeDirs p).2.Linkless := by
  refine makeDirs_keeps (fun d₁ q d₂ h h' => ?_) d p hd
  obtain ⟨k, s, _, _, rfl⟩ := makeDir_gap h'
  exact h.put (by simp) (by simp [Entry.kind])

/-! ## 4. Any request -/

theorem settle_keeps {I : Disk → Prop} {r : Except Fault Disk} (hd : I d)
    (h : ∀ d', r = .ok d' → I d') : I (d.settle r).2 := by
  unfold settle
  split
  · exact h _ rfl
  · exact hd

/-- **No request loses anything.** -/
theorem answer_grows (d : Disk) : ∀ q : Request, d.Grows (d.answer q).2
  | .kind _ | .ownKind _ | .canonical _ | .list _ | .read _ => .refl d
  | .write _ _ => settle_keeps (I := d.Grows) (.refl d) fun _ h => changeAt_grows h
  | .append _ _ => settle_keeps (I := d.Grows) (.refl d) fun _ h => changeAt_grows h
  | .makeDirs p => (makeDirs_extends d p).grows

theorem answer_grounded (hd : d.Grounded) : ∀ q : Request, (d.answer q).2.Grounded
  | .kind _ | .ownKind _ | .canonical _ | .list _ | .read _ => hd
  | .write _ _ => settle_keeps hd fun _ h => changeAt_grounded hd h
  | .append _ _ => settle_keeps hd fun _ h => changeAt_grounded hd h
  | .makeDirs p => makeDirs_grounded hd p

theorem answer_linkless (hd : d.Linkless) : ∀ q : Request, (d.answer q).2.Linkless
  | .kind _ | .ownKind _ | .canonical _ | .list _ | .read _ => hd
  | .write _ _ => settle_keeps hd fun _ h => changeAt_linkless hd h
  | .append _ _ => settle_keeps hd fun _ h => changeAt_linkless hd h
  | .makeDirs p => makeDirs_linkless hd p

/-! ## 5. Files of one name -/

/-- The request changes no files but those of the given name. -/
def ChangesOnly (name : String) : Request → Prop
  | .write p _ | .append p _ => ∃ S, p.segments = S ++ [name]
  | _ => True

theorem changeAt_other {name : String} (hname : Path.IsName name) (hd : d.Linkless)
    (hp : ∃ S, p.segments = S ++ [name]) (h : d.changeAt p content = .ok d')
    (hl : l.getLast? ≠ some name) : d'.find? l = d.find? l := by
  obtain ⟨S, hS⟩ := hp
  have hput : ∀ k e, (d.put (k ++ [name]) e).find? l = d.find? l := by
    intro k e
    refine find?_put_of_ne d (by simp) e ?_
    rintro rfl
    exact hl (by simp)
  rcases changeAt_cases h with ⟨k, s, hr, rfl⟩ | ⟨l', c, hr, _, rfl⟩
  · rw [resolve_eq_ok_iff, hS] at hr
    obtain ⟨k', hk' | hk'⟩ := hr.2.last_name hname hd
    · cases hk'
      exact hput k _
    · cases hk'
  · rw [resolve_eq_ok_iff, hS] at hr
    obtain ⟨k', hk' | hk'⟩ := hr.2.last_name hname hd
    · cases hk'
    · cases hk'
      exact hput k' _

/-- **Without links, files of other names keep what they hold.** -/
theorem answer_other {name : String} (hname : Path.IsName name) (hd : d.Linkless) {c : Content}
    (hl : l.getLast? ≠ some name) (hf : d.find? l = some (.file c)) :
    ∀ q : Request, ChangesOnly name q → (d.answer q).2.find? l = some (.file c)
  | .kind _, _ | .ownKind _, _ | .canonical _, _ | .list _, _ | .read _, _ => hf
  | .write _ _, hq => settle_keeps (I := fun d' => d'.find? l = some (.file c)) hf
      fun _ h => (changeAt_other hname hd hq h hl).trans hf
  | .append _ _, hq => settle_keeps (I := fun d' => d'.find? l = some (.file c)) hf
      fun _ h => (changeAt_other hname hd hq h hl).trans hf
  | .makeDirs p, _ => ((makeDirs_extends d p).file_iff c).mpr hf

end Scaffold.Disk
