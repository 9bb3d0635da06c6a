import Mathlib.Data.List.Nodup
import Scaffold.Proofs.Disk.Changes

/-!
# Disks without double entries

* `Distinct` -- no location has two entries;
* `answer_distinct` -- **no request makes a double one**;
* `Distinct.mem_children`, `Distinct.nodup_children` -- on such a disk, what is
  listed is what there is, and no name is listed twice.
-/
namespace Scaffold

namespace Disk

/-- No location has two entries. -/
def Distinct (d : Disk) : Prop := (d.entries.map Prod.fst).Nodup

instance (d : Disk) : Decidable d.Distinct := inferInstanceAs (Decidable (List.Nodup _))

variable {d d' : Disk} {p : Path} {content : Option Content → Content}

theorem Distinct.put (h : d.Distinct) (l : Location) (e : Entry) : (d.put l e).Distinct := by
  unfold Distinct Disk.put
  rw [List.map_append, List.nodup_append]
  refine ⟨?_, List.nodup_singleton l, fun a ha b hb heq => ?_⟩
  · exact h.sublist (List.filter_sublist.map Prod.fst)
  · obtain ⟨x, hx, rfl⟩ := List.mem_map.mp ha
    rw [List.mem_singleton.mp hb] at heq
    simpa [heq] using (List.mem_filter.mp hx).2

theorem changeAt_distinct (hd : d.Distinct) (h : d.changeAt p content = .ok d') :
    d'.Distinct := by
  rcases changeAt_cases h with ⟨k, s, _, rfl⟩ | ⟨l, c, _, _, rfl⟩
  · exact hd.put _ _
  · exact hd.put _ _

theorem makeDirs_distinct (hd : d.Distinct) (p : Path) : (d.makeDirs p).2.Distinct := by
  refine makeDirs_keeps (fun d₁ q d₂ h h' => ?_) d p hd
  obtain ⟨k, s, _, _, rfl⟩ := makeDir_gap h'
  exact h.put _ _

theorem answer_distinct (hd : d.Distinct) : ∀ q : Request, (d.answer q).2.Distinct
  | .kind _ | .ownKind _ | .canonical _ | .list _ | .read _ => hd
  | .write _ _ => settle_keeps hd fun _ h => changeAt_distinct hd h
  | .append _ _ => settle_keeps hd fun _ h => changeAt_distinct hd h
  | .makeDirs p => makeDirs_distinct hd p

/-- Where each location has one entry, an entry is what there is. -/
theorem Distinct.find? (h : d.Distinct) {l : Location} {e : Entry} (hl : l ≠ [])
    (hmem : (l, e) ∈ d.entries) : d.find? l = some e := by
  rw [find?_of_ne_nil d hl, List.lookup_eq_some_iff]
  obtain ⟨before, after, hes⟩ := List.append_of_mem hmem
  refine ⟨before, after, hes, fun x hx => ?_⟩
  unfold Distinct at h
  rw [hes, List.map_append, List.nodup_append] at h
  have hne := h.2.2 x.1 (List.mem_map_of_mem hx) l (by simp)
  simpa using Ne.symm hne

/-- What is listed in a location is there, and of the listed kind. -/
theorem Distinct.mem_children (h : d.Distinct) {l : Location} {s : String} {k : EntryKind} :
    (s, k) ∈ d.children l ↔ ∃ e, d.find? (l ++ [s]) = some e ∧ e.kind = k := by
  constructor
  · intro hmem
    unfold children at hmem
    obtain ⟨⟨l', e⟩, hentry, hx⟩ := List.mem_filterMap.mp hmem
    rcases l'.eq_nil_or_concat with rfl | ⟨l', t, rfl⟩
    · simp at hx
    · simp only [List.concat_eq_append, List.getLast?_concat, List.dropLast_concat, beq_iff_eq,
        Option.ite_none_right_eq_some, Option.some.injEq, Prod.mk.injEq] at hx hentry
      obtain ⟨rfl, rfl, rfl⟩ := hx
      exact ⟨e, h.find? (by simp) hentry, rfl⟩
  · rintro ⟨e, he, rfl⟩
    exact Disk.mem_children he

/-- No name is listed twice. -/
theorem Distinct.nodup_children (h : d.Distinct) (l : Location) :
    ((d.children l).map Prod.fst).Nodup := by
  -- the names are read off the locations
  have hnames : (d.children l).map Prod.fst = (d.entries.map Prod.fst).filterMap
      fun x => if x.dropLast == l then x.getLast? else none := by
    unfold children
    rw [List.map_filterMap, List.filterMap_map]
    refine List.filterMap_congr fun x _ => ?_
    dsimp only [Function.comp]
    cases x.1.getLast? with
    | none => simp
    | some s => by_cases hd : x.1.dropLast == l <;> simp [hd]
  rw [hnames]
  refine h.filterMap fun a b s ha hb => ?_
  simp only [beq_iff_eq, Option.mem_def, Option.ite_none_right_eq_some] at ha hb
  obtain ⟨a', rfl⟩ := List.getLast?_eq_some_iff.mp ha.2
  obtain ⟨b', rfl⟩ := List.getLast?_eq_some_iff.mp hb.2
  have ha := ha.1
  have hb := hb.1
  rw [List.dropLast_concat] at ha hb
  rw [ha, hb]

end Disk

end Scaffold
