import Scaffold.Proofs.Disk.Spelling
import Scaffold.Proofs.Path.Ancestors

/-!
# Paths that go on with names

However two paths are spelled, one may take the steps of the other and then some names.

* `names_of_components`, `rooted_of_components` -- **the names on it are those of the other
  and these**;
* `parent_of_components` -- its parent takes the same steps, except the last;
* `absolute_child` -- where a file beside the last name is in a project.
-/
namespace Scaffold.Path

/-! ## 1. Names and steps -/

/-- The segment that makes a step, if one does. -/
def Component.segment? : Component → Option String
  | .up => some ".."
  | .name s => some s
  | _ => none

@[simp] theorem segment?_stepOf (s : String) : (stepOf s).segment? = some s := by
  unfold stepOf
  split
  · rename_i h
    rw [eq_of_beq h]
    rfl
  · rfl

theorem names_eq_filterMap (p : Path) : p.names = p.components.filterMap Component.segment? := by
  have hstart : (if p.rooted then [Component.root] else if p.beginsHere then [.here] else []).filterMap
      Component.segment? = [] := by
    split
    · rfl
    · split <;> rfl
  have hsteps : Component.segment? ∘ stepOf = some := funext segment?_stepOf
  rw [components_eq_names, List.filterMap_append, hstart, List.nil_append, List.filterMap_map,
    hsteps, List.filterMap_some]

theorem root_mem_components {p : Path} : .root ∈ p.components ↔ p.rooted = true := by
  have hstep : ∀ s, stepOf s ≠ .root := by
    intro s
    unfold stepOf
    split <;> simp
  rw [components_eq_names, List.mem_append, or_iff_left]
  · split
    · exact iff_of_true (List.mem_singleton_self _) (by assumption)
    · refine iff_of_false ?_ (by assumption)
      split <;> simp
  · intro hmem
    obtain ⟨s, -, hs⟩ := List.mem_map.mp hmem
    exact hstep s hs

/-- What a path names as a step is a name. -/
theorem isName_of_mem_components {p : Path} {s : String} (h : .name s ∈ p.components) :
    IsName s := by
  have hmem : s ∈ p.names := by
    rw [names_eq_filterMap, List.mem_filterMap]
    exact ⟨_, h, rfl⟩
  rw [components_eq_names, List.mem_append] at h
  refine isName_of_not_idle (mem_names hmem).1 ?_
  rintro rfl
  rcases h with h | h
  · split at h
    · simp at h
    · split at h <;> simp at h
  · obtain ⟨t, -, ht⟩ := List.mem_map.mp h
    have hup := congrArg Component.segment? ht
    rw [segment?_stepOf] at hup
    cases hup
    cases ht

section Continued

variable {p q : Path} {L : List String} (h : p.components = q.components ++ L.map .name)

include h

/-- **The names on a path that goes on with names.** -/
theorem names_of_components : p.names = q.names ++ L := by
  have hnames : Component.segment? ∘ Component.name = some := rfl
  rw [names_eq_filterMap, h, List.filterMap_append, ← names_eq_filterMap, List.filterMap_map,
    hnames, List.filterMap_some]

theorem rooted_of_components : p.rooted = q.rooted := by
  have hroot : p.rooted = true ↔ q.rooted = true := by
    rw [← root_mem_components, ← root_mem_components, h, List.mem_append]
    simp
  exact Bool.eq_iff_iff.mpr hroot

theorem isName_of_components : ∀ s ∈ L, IsName s := fun _ hs =>
  isName_of_mem_components (p := p)
    (h ▸ List.mem_append_right _ (List.mem_map_of_mem hs))

end Continued

/-! ## 2. Parents -/

theorem components_concat {r : Bool} {M : List String} {x : String} (hx : idle x = false) :
    (⟨r, M ++ [x]⟩ : Path).components = (⟨r, M⟩ : Path).components ++ [stepOf x] := by
  have hnames : (⟨r, M ++ [x]⟩ : Path).names = (⟨r, M⟩ : Path).names ++ [x] := by
    unfold names
    rw [List.filter_append, List.filter_cons_of_pos (by simp [hx]), List.filter_nil]
  have hhere : (⟨r, M ++ [x]⟩ : Path).beginsHere = (⟨r, M⟩ : Path).beginsHere := by
    cases M with
    | nil =>
      have hdot : x ≠ "." := by
        rintro rfl
        cases hx
      simp [beginsHere, hdot]
    | cons t M => rfl
  rw [components_eq_names, components_eq_names, hnames, hhere, List.map_append, List.append_assoc]
  rfl

/-- A path with a step ends in one when it is trimmed. -/
theorem exists_trimEnd {p : Path} (h : p.names ≠ []) :
    ∃ M x, idle x = false ∧ p.trimEnd = ⟨p.rooted, M ++ [x]⟩ := by
  obtain ⟨short, dots, hsplit, hdots, hlast⟩ := Disk.split_end p.segments
  rcases short.eq_nil_or_concat with rfl | ⟨M, x, rfl⟩
  · refine absurd ?_ h
    unfold names
    rw [hsplit, List.nil_append, List.filter_eq_nil_iff]
    exact fun s hs => by simp [hdots s hs]
  · rw [List.concat_eq_append] at hsplit hlast
    have hx : idle x = false := hlast x (by simp)
    refine ⟨M, x, hx, ?_⟩
    have hdrop : (p.segments.reverse.dropWhile idle).reverse = M ++ [x] := by
      rw [hsplit, List.reverse_append, List.dropWhile_append_of_pos
        (fun s hs => hdots s (List.mem_reverse.mp hs)), List.reverse_append, List.reverse_singleton,
        List.singleton_append, List.dropWhile_cons_of_neg (by simp [hx]), List.reverse_cons,
        List.reverse_reverse]
    unfold trimEnd
    simp only [hdrop]
    cases hc : M ++ [x] with
    | nil => simp at hc
    | cons t ts => rfl

/-- **The parent of a path takes its steps, except the last.** -/
theorem parent_of_components {p : Path} {cs : List Component} {s : String}
    (h : p.components = cs ++ [.name s]) :
    p.fileName? = some s ∧ ∃ q, p.parent? = some q ∧ q.components = cs := by
  have hnames : p.names ≠ [] := by
    rw [names_eq_filterMap, h, List.filterMap_append]
    exact List.append_ne_nil_of_right_ne_nil _ (by simp [Component.segment?])
  obtain ⟨M, x, hx, htrim⟩ := exists_trimEnd hnames
  refine ⟨by rw [fileName?, h, List.getLast?_concat], (⟨p.rooted, M⟩ : Path).trimEnd, ?_, ?_⟩
  · rw [parent?, htrim, if_neg (by simp), List.dropLast_concat]
  · rw [← components_trimEnd, htrim, components_concat hx] at h
    rw [components_trimEnd]
    exact (List.append_inj' h rfl).1

/-! ## 3. Files of a project -/

theorem filter_openEnd (L : List String) :
    (openEnd L).filter (fun s => !idle s) = L.filter fun s => !idle s := by
  unfold openEnd
  split
  · rename_i h
    obtain ⟨M, rfl⟩ := List.getLast?_eq_some_iff.mp (eq_of_beq h)
    rw [List.dropLast_concat, List.filter_append, List.filter_cons_of_neg (by decide),
      List.filter_nil, List.append_nil]
  · rfl

/-- A file right below a path of a project. -/
theorem absolute_child_names (P : Project) (K : Path) (s : String) :
    ∃ r X, P.absolute (K.child s) = ⟨r, X ++ [s]⟩ ∧
      X.filter (fun s => !idle s) = (P.absolute K).names := by
  have hchild : K.child s = ⟨K.rooted, openEnd K.segments ++ [s]⟩ := by
    unfold child join
    rw [if_neg (by simp)]
  unfold Project.absolute join
  rw [hchild]
  cases hroot : K.rooted with
  | true =>
    refine ⟨true, openEnd K.segments, rfl, ?_⟩
    rw [if_pos rfl, filter_openEnd]
    rfl
  | false =>
    refine ⟨P.root.rooted, openEnd P.root.segments ++ openEnd K.segments, ?_, ?_⟩
    · rw [if_neg Bool.false_ne_true, List.append_assoc]
    · rw [if_neg Bool.false_ne_true, List.filter_append, filter_openEnd K.segments,
        ← List.filter_append]
      rfl

/-- The names on a path of a project that goes on with names. -/
theorem names_absolute {P : Project} {K T : Path} {L : List String}
    (h : K.components = T.components ++ L.map .name) :
    (P.absolute K).names = (P.absolute T).names ++ L := by
  have hnames := names_of_components h
  unfold Project.absolute join
  rw [rooted_of_components h]
  split
  · exact hnames
  · unfold names at hnames ⊢
    rw [List.filter_append, List.filter_append, hnames, List.append_assoc]

end Scaffold.Path
