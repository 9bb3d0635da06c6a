import Mathlib.Data.List.TakeDrop
import Mathlib.Data.List.TakeWhile
import Scaffold.Proofs.Path.Neat

/-!
# Texts of paths

* `pieces_intercalate` -- **segments without slashes are read back** from the
  text they make;
* `spelled_names` -- the text of the steps of a neat path;
* `notMem_spelled`, `notMem_ofText`, `notMem_stem` -- what is made from texts has
  no other characters than these;
* `cutName_extension` -- a name is its stem, a dot and its extension; `cutName_cpp`: one that
  was put together is cut there.
-/
namespace Scaffold.Path

/-! ## 1. Pieces -/

theorem piecesFrom_of_notMem {cs : List Char} (h : '/' ∉ cs) (begun : List Char) :
    piecesFrom begun cs = [String.ofList (begun.reverse ++ cs)] := by
  induction cs generalizing begun with
  | nil => rw [piecesFrom, List.append_nil]
  | cons c cs ih =>
    have hc : c ≠ '/' := fun e => h (e ▸ List.mem_cons_self)
    have hstep : piecesFrom begun (c :: cs) = piecesFrom (c :: begun) cs := by
      rw [piecesFrom]
      exact fun e => hc e
    rw [hstep, ih fun hm => h (List.mem_cons_of_mem c hm)]
    simp

theorem piecesFrom_append {cs : List Char} (h : '/' ∉ cs) (begun rest : List Char) :
    piecesFrom begun (cs ++ '/' :: rest) =
      String.ofList (begun.reverse ++ cs) :: piecesFrom [] rest := by
  induction cs generalizing begun with
  | nil => rw [List.nil_append, piecesFrom, List.append_nil]
  | cons c cs ih =>
    have hc : c ≠ '/' := fun e => h (e ▸ List.mem_cons_self)
    have hstep : piecesFrom begun (c :: (cs ++ '/' :: rest)) =
        piecesFrom (c :: begun) (cs ++ '/' :: rest) := by
      rw [piecesFrom]
      exact fun e => hc e
    rw [List.cons_append, hstep, ih fun hm => h (List.mem_cons_of_mem c hm)]
    simp

/-- **Segments without slashes are read back.** -/
theorem pieces_intercalate : ∀ {L : List String}, L ≠ [] → (∀ s ∈ L, '/' ∉ s.toList) →
    piecesFrom [] ("/".intercalate L).toList = L
  | [], hne, _ => absurd rfl hne
  | [s], _, h => by
      rw [String.intercalate_singleton, piecesFrom_of_notMem (h s (List.mem_singleton_self s)),
        List.reverse_nil, List.nil_append, String.ofList_toList]
  | s :: t :: L, _, h => by
      have hrest := pieces_intercalate (L := t :: L) (by simp)
        fun u hu => h u (List.mem_cons_of_mem s hu)
      have hsplit : ("/".intercalate (s :: t :: L)).toList =
          s.toList ++ '/' :: ("/".intercalate (t :: L)).toList := by
        rw [String.intercalate_cons_cons, String.toList_append, String.toList_append,
          List.append_assoc]
        rfl
      rw [hsplit, piecesFrom_append (h s List.mem_cons_self), hrest, List.reverse_nil,
        List.nil_append, String.ofList_toList]

/-- A text without slashes is the path of a name. -/
theorem ofText_of_notMem {s : String} (h : '/' ∉ s.toList) : ofText s = ⟨false, [s]⟩ := by
  have hpieces : piecesFrom [] s.toList = [s] := by
    rw [piecesFrom_of_notMem h, List.reverse_nil, List.nil_append, String.ofList_toList]
  unfold ofText
  split
  · rename_i cs hcs
    exact absurd (hcs ▸ List.mem_cons_self) h
  · rw [hpieces]

/-- The steps of a neat path are its segments. -/
theorem spelled_names {L : List String} (h : (⟨false, L⟩ : Path).Neat) :
    (⟨false, L⟩ : Path).spelled "/" = "/".intercalate L := by
  unfold spelled
  rw [h.texts]

/-! ## 2. Characters -/

/-- A character that is in none of some texts is not in them together. -/
theorem notMem_intercalate {sep : String} {z : Char} (hsep : z ∉ sep.toList) :
    ∀ {L : List String}, (∀ s ∈ L, z ∉ s.toList) → z ∉ (sep.intercalate L).toList
  | [], _ => by simp
  | [s], h => by
      rw [String.intercalate_singleton]
      exact h s (List.mem_singleton_self s)
  | s :: t :: L, h => by
      rw [String.intercalate_cons_cons, String.toList_append, String.toList_append,
        List.mem_append, List.mem_append, not_or, not_or]
      exact ⟨⟨h s List.mem_cons_self, hsep⟩,
        notMem_intercalate hsep fun u hu => h u (List.mem_cons_of_mem s hu)⟩

/-- Besides those of the segments, a path is spelled with slashes and dots. -/
theorem notMem_spelled {p : Path} {sep : String} {z : Char} (hsep : z ∉ sep.toList)
    (hz : z ≠ '/' ∧ z ≠ '.') (h : ∀ s ∈ p.segments, z ∉ s.toList) :
    z ∉ (p.spelled sep).toList := by
  refine notMem_intercalate hsep fun s hs => ?_
  obtain ⟨c, hc, rfl⟩ := List.mem_map.mp hs
  cases c with
  | root => simpa [Component.text] using hz.1
  | here => simpa [Component.text] using hz.2
  | up => simpa [Component.text] using hz.2
  | name n =>
    rcases List.mem_append.mp hc with hc | hc
    · split at hc
      · simp at hc
      · split at hc <;> simp at hc
    · obtain ⟨t, ht, heq⟩ := List.mem_map.mp hc
      unfold stepOf at heq
      split at heq
      · cases heq
      · have htn : t = n := Component.name.inj heq
        exact htn ▸ h t (List.mem_filter.mp ht).1

theorem notMem_piecesFrom {z : Char} : ∀ (cs begun : List Char), z ∉ begun → z ∉ cs →
    ∀ s ∈ piecesFrom begun cs, z ∉ s.toList
  | [], begun, hb, _ => by
      rw [piecesFrom]
      intro s hs
      rw [List.mem_singleton.mp hs, String.toList_ofList]
      simpa using hb
  | c :: cs, begun, hb, hc => by
      obtain ⟨hzc, hcs⟩ := not_or.mp (mt List.mem_cons.mpr hc)
      by_cases hslash : c = '/'
      · subst hslash
        rw [piecesFrom]
        intro s hs
        rcases List.mem_cons.mp hs with rfl | hs
        · rw [String.toList_ofList]
          simpa using hb
        · exact notMem_piecesFrom cs [] List.not_mem_nil hcs s hs
      · have hstep : piecesFrom begun (c :: cs) = piecesFrom (c :: begun) cs := by
          rw [piecesFrom]
          exact fun e => hslash e
        rw [hstep]
        refine notMem_piecesFrom cs (c :: begun) (fun hmem => ?_) hcs
        rcases List.mem_cons.mp hmem with e | hmem
        · exact hzc e
        · exact hb hmem

/-- The segments of a text have no characters that the text does not have. -/
theorem notMem_ofText {t : String} {z : Char} (h : z ∉ t.toList) :
    ∀ s ∈ (ofText t).segments, z ∉ s.toList := by
  unfold ofText
  split
  · rename_i cs hcs
    exact notMem_piecesFrom cs [] List.not_mem_nil fun hmem =>
      h (hcs ▸ List.mem_cons_of_mem '/' hmem)
  · exact notMem_piecesFrom _ [] List.not_mem_nil h

theorem mem_join_right {p q : Path} {s : String} (h : s ∈ q.segments) :
    s ∈ (p.join q).segments := by
  unfold join
  split
  · exact h
  · exact List.mem_append_right _ h

theorem notMem_join {p q : Path} {z : Char} (hp : ∀ s ∈ p.segments, z ∉ s.toList)
    (hq : ∀ s ∈ q.segments, z ∉ s.toList) : ∀ s ∈ (p.join q).segments, z ∉ s.toList := by
  unfold join
  split
  · exact hq
  · intro s hs
    rcases List.mem_append.mp hs with hs | hs
    · refine hp s ?_
      unfold openEnd at hs
      split at hs
      · exact List.dropLast_subset _ hs
      · exact hs
    · exact hq s hs

/-- The stem of a name is made of characters of the name. -/
theorem notMem_stem {n : String} {z : Char} (h : z ∉ n.toList) : z ∉ (cutName n).1.toList := by
  unfold cutName
  split
  · rename_i ext c cs hspan
    rw [String.toList_ofList, List.mem_reverse]
    intro hmem
    have hrest : '.' :: c :: cs = n.toList.reverse.dropWhile (· != '.') := by
      rw [List.span_eq_takeWhile_dropWhile] at hspan
      exact (congrArg Prod.snd hspan).symm
    have : z ∈ n.toList.reverse.dropWhile (· != '.') := hrest ▸ List.mem_cons_of_mem '.' hmem
    exact h (List.mem_reverse.mp ((List.dropWhile_suffix _).subset this))
  · exact h

/-- A name with an extension is its stem, a dot, and the extension, which has no dot. -/
theorem cutName_extension {n e : String} (h : (cutName n).2 = some e) :
    n.toList = (cutName n).1.toList ++ '.' :: e.toList ∧ '.' ∉ e.toList := by
  unfold cutName at h ⊢
  split at h
  · rename_i ext c cs hspan
    cases h
    rw [List.span_eq_takeWhile_dropWhile] at hspan
    obtain ⟨hext, hrest⟩ := Prod.mk.inj hspan
    constructor
    · rw [String.toList_ofList, String.toList_ofList, ← List.reverse_reverse n.toList,
        ← List.takeWhile_append_dropWhile (p := (· != '.')) (l := n.toList.reverse), hext, hrest]
      simp
    · rw [String.toList_ofList, List.mem_reverse, ← hext]
      intro hmem
      simpa using List.mem_takeWhile_imp hmem
  · cases h

/-- A name that was put together is cut where its extension begins. -/
theorem cutName_cpp {s : String} (hs : s ≠ "") : cutName (s ++ ".cpp") = (s, some "cpp") := by
  obtain ⟨c, cs, hcs⟩ : ∃ c cs, s.toList.reverse = c :: cs := by
    refine List.exists_cons_of_ne_nil fun h => hs (String.toList_injective ?_)
    simpa using h
  have hspan : (s ++ ".cpp").toList.reverse.span (· != '.') =
      (['p', 'p', 'c'], '.' :: c :: cs) := by
    rw [String.toList_append, List.reverse_append, hcs]
    simp [List.span, List.span.loop]
  have hback : String.ofList (c :: cs).reverse = s := by
    rw [← hcs, List.reverse_reverse, String.ofList_toList]
  unfold cutName
  rw [hspan]
  exact congrArg (·, some "cpp") hback

end Scaffold.Path
