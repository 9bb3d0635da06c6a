import Mathlib.Data.List.Infix
import Scaffold.BuildTree
import Scaffold.Proofs.Text.Lines

/-!
# Declarations in build lists

A build list is read in two ways: by its lines (`declared?`), and by looking for
the text of a declaration anywhere in it (`occursIn`).

* `declarations` -- what the lines declare, one entry for each declaring line;
* `declared?_declaration` -- a declaration that is written is read back;
* `declarations_append`, `declarations_unlines` -- declarations go line by line;
* `declarations_extended`, `shows_extended` -- **what a further declaration at the
  end does to either reading**.
-/
namespace Scaffold.Artifact.BuildList

open Text (trim isBlank)

/-! ## 1. Lines -/

/-- What the lines of a text declare, line by line. -/
def declarations (text : List Char) : List String := (Text.lines text).filterMap declared?

theorem declaredSubdirectories_eq (text : String) :
    declaredSubdirectories text = (declarations text.toList).eraseDups := rfl

/-- Leaving out repetitions leaves none. -/
theorem nodup_eraseDups (names : List String) : names.eraseDups.Nodup := by
  induction hn : names.length using Nat.strongRecOn generalizing names with
  | _ n ih =>
    cases names with
    | nil => exact List.nodup_nil
    | cons a names =>
      have hlt : (names.filter fun b => !b == a).length < n := by
        have := List.length_filter_le (fun b => !b == a) names
        simp only [List.length_cons] at hn
        omega
      rw [List.eraseDups_cons, List.nodup_cons]
      refine ⟨fun hmem => ?_, ih _ hlt _ rfl⟩
      have hmem := List.mem_eraseDups.mp hmem
      simp at hmem

/-- Where nothing is repeated, nothing is left out. -/
theorem eraseDups_of_nodup {names : List String} (h : names.Nodup) : names.eraseDups = names := by
  induction names with
  | nil => rfl
  | cons a names ih =>
    obtain ⟨ha, hnames⟩ := List.nodup_cons.mp h
    have hfilter : names.filter (fun b => !b == a) = names := by
      refine List.filter_eq_self.mpr fun b hb => ?_
      have hne : b ≠ a := fun heq => ha (heq ▸ hb)
      simpa using hne
    rw [List.eraseDups_cons, hfilter, ih hnames]

/-- Names that are already in front add nothing. -/
theorem eraseDups_append_again (front names : List String) :
    (front ++ (front ++ names).eraseDups).eraseDups = (front ++ names).eraseDups := by
  have hfront : front.eraseDups.removeAll front = [] := by
    simp [List.removeAll]
  have hrest : (names.removeAll front).eraseDups.removeAll front =
      (names.removeAll front).eraseDups := by
    refine List.filter_eq_self.mpr fun c hc => ?_
    simpa [List.removeAll] using (List.mem_filter.mp (List.mem_eraseDups.mp hc)).2
  rw [List.eraseDups_append, List.eraseDups_append]
  congr 1
  rw [List.removeAll, List.filter_append]
  change List.eraseDups (front.eraseDups.removeAll front ++
    (names.removeAll front).eraseDups.removeAll front) = _
  rw [hfront, hrest, List.nil_append, eraseDups_of_nodup (nodup_eraseDups _)]

/-- One more name is left out if it is there already. -/
theorem eraseDups_concat (names : List String) (c : String) :
    (names ++ [c]).eraseDups = names.eraseDups ∨ (names ++ [c]).eraseDups = names.eraseDups ++ [c] := by
  rw [List.eraseDups_append]
  by_cases hc : c ∈ names
  · exact .inl (by simp [List.removeAll, hc])
  · exact .inr (by simp [List.removeAll, hc, List.eraseDups_cons])

theorem nodup_declaredSubdirectories (text : String) : (declaredSubdirectories text).Nodup :=
  nodup_eraseDups _

theorem mem_declaredSubdirectories {text : String} {name : String} :
    name ∈ declaredSubdirectories text ↔ name ∈ declarations text.toList := by
  rw [declaredSubdirectories_eq, List.mem_eraseDups]

/-- Only what is between the blanks at the ends of a line counts. -/
theorem declared?_congr {a b : List Char} (h : trim a = trim b) : declared? a = declared? b := by
  unfold declared?
  rw [h]

@[simp] theorem declared?_dropReturn (line : List Char) :
    declared? (Text.dropReturn line.reverse).reverse = declared? line := by
  unfold Text.dropReturn
  split
  · rename_i cs heq
    have : line = cs.reverse ++ ['\r'] := by
      rw [← List.reverse_reverse line, heq, List.reverse_cons]
    rw [this]
    exact (declared?_congr (Text.trim_append_blank (by decide) _)).symm
  · rw [List.reverse_reverse]

theorem declared?_nil : declared? [] = none := by decide

theorem declarations_of_notMem {line : List Char} (h : '\n' ∉ line) :
    declarations line = (declared? line).toList := by
  unfold declarations Text.lines
  rw [Text.linesFrom_of_notMem h]
  split
  · rename_i hline
    rw [hline.2, declared?_nil]
    rfl
  · cases hd : declared? line <;> simp [hd]

theorem declarations_cons_line {line : List Char} (h : '\n' ∉ line) (rest : List Char) :
    declarations (line ++ '\n' :: rest) = (declared? line).toList ++ declarations rest := by
  unfold declarations
  rw [Text.lines_append h]
  cases hd : declared? line <;> simp [hd]

/-- **A line feed cuts the declarations in two.** -/
theorem declarations_append (a b : List Char) :
    declarations (a ++ '\n' :: b) = declarations a ++ declarations b := by
  induction hn : a.length using Nat.strongRecOn generalizing a with
  | _ n ih =>
    rcases Text.eq_or_split_lineFeed a with ha | ⟨line, rest, hline, rfl⟩
    · rw [declarations_cons_line ha, declarations_of_notMem ha]
    · have hlt : rest.length < n := by
        simp at hn
        omega
      rw [List.append_assoc, List.cons_append, declarations_cons_line hline, ih _ hlt rest rfl,
        declarations_cons_line hline, List.append_assoc]

@[simp] theorem declarations_append_lineFeed (a : List Char) :
    declarations (a ++ ['\n']) = declarations a := by
  rw [declarations_append]
  simp [declarations, Text.lines, Text.linesFrom]

theorem declarations_unlines {ls : List String} (h : ∀ l ∈ ls, '\n' ∉ l.toList) :
    declarations (Text.unlines ls).toList = ls.filterMap fun l => declared? l.toList := by
  rw [Text.toList_unlines]
  induction ls with
  | nil => rfl
  | cons l ls ih =>
    rw [List.flatMap_cons, List.append_assoc, List.singleton_append,
      declarations_cons_line (h l List.mem_cons_self),
      ih fun l' hl' => h l' (List.mem_cons_of_mem l hl')]
    cases hd : declared? l.toList <;> simp [hd]

/-! ## 2. Names -/

/-- A name that a declaration can carry: neither empty nor with blanks at its
ends. -/
def Trimmed (name : String) : Prop := name.toList ≠ [] ∧ trim name.toList = name.toList

instance (name : String) : Decidable (Trimmed name) := inferInstanceAs (Decidable (_ ∧ _))

/-- A name without parentheses, which ends where its declaration does. -/
def Unbracketed (name : String) : Prop := '(' ∉ name.toList ∧ ')' ∉ name.toList

instance (name : String) : Decidable (Unbracketed name) := inferInstanceAs (Decidable (_ ∧ _))

/-- A name that either reading finds in its declaration, and in no other one. -/
def Declarable (name : String) : Prop :=
  Trimmed name ∧ Unbracketed name ∧ '\n' ∉ name.toList

instance (name : String) : Decidable (Declarable name) := inferInstanceAs (Decidable (_ ∧ _ ∧ _))

theorem declaration_ne_nil (name : String) : (declaration name).toList ≠ [] := by
  unfold declaration
  rw [String.toList_append, String.toList_append]
  exact List.cons_ne_nil _ _

theorem after?_append (a b : List Char) : after? a (a ++ b) = some b := by
  induction a with
  | nil => rfl
  | cons c a ih => simpa [after?] using ih

theorem after?_eq_some {a cs rest : List Char} (h : after? a cs = some rest) : cs = a ++ rest := by
  induction a generalizing cs with
  | nil => simpa [after?] using h
  | cons c a ih =>
    cases cs with
    | nil => simp [after?] at h
    | cons c' cs =>
      rw [after?] at h
      split at h
      · rename_i hc
        rw [List.cons_append, ← ih h, (by simpa using hc : c = c')]
      · cases h

/-- The beginning of every declaration. -/
def opening : List Char := "add_subdirectory(".toList

theorem toList_declaration (name : String) :
    (declaration name).toList = opening ++ name.toList ++ [')'] := by
  unfold declaration opening
  rw [String.toList_append, String.toList_append]
  rfl

theorem trim_declaration (name : String) :
    trim (declaration name).toList = (declaration name).toList := by
  rw [toList_declaration]
  exact Text.trim_eq_self (a := 'a') (z := ')') (by decide) (by decide)
    ("dd_subdirectory(".toList ++ name.toList)

/-- **A declaration that is written is read back.** -/
theorem declared?_declaration {name : String} (h : Trimmed name) :
    declared? (declaration name).toList = some name := by
  unfold declared?
  rw [trim_declaration, toList_declaration, List.append_assoc]
  change ((after? opening (opening ++ (name.toList ++ [')']))).bind fun rest => _) = _
  rw [after?_append]
  simp [h.1, h.2]

/-- What a line declares is a name that stands in it. -/
theorem declared?_eq_some {line : List Char} {name : String} (h : declared? line = some name) :
    Trimmed name ∧ ∀ c ∈ name.toList, c ∈ line := by
  unfold declared? at h
  change ((after? opening (trim line)).bind fun rest => _) = _ at h
  obtain ⟨rest, hrest, h⟩ := Option.bind_eq_some_iff.mp h
  split at h
  · dsimp only at h
    split at h
    · cases h
    · rename_i hne
      simp only [Option.some.injEq] at h
      subst h
      refine ⟨⟨by simpa using hne, by simp [Text.trim_trim]⟩, fun c hc => ?_⟩
      rw [String.toList_ofList] at hc
      have hc := List.dropLast_subset _ (Text.mem_of_mem_trim hc)
      have : c ∈ trim line := by
        rw [after?_eq_some hrest]
        exact List.mem_append_right _ hc
      exact Text.mem_of_mem_trim this
  · cases h

theorem trimmed_of_mem_declarations {text : List Char} {name : String}
    (h : name ∈ declarations text) : Trimmed name ∧ '\n' ∉ name.toList := by
  obtain ⟨line, hline, hd⟩ := List.mem_filterMap.mp h
  obtain ⟨ht, hc⟩ := declared?_eq_some hd
  exact ⟨ht, fun hmem => Text.notMem_of_mem_lines hline (hc _ hmem)⟩

/-! ## 3. Occurrences -/

/-- The text of a declaration stands somewhere in the text. -/
def Shows (text : List Char) (name : String) : Prop := (declaration name).toList <:+: text

theorem occursIn_iff {needle : List Char} : ∀ {text : List Char},
    BuildTree.occursIn needle text = true ↔ needle <:+: text
  | [] => by simp [BuildTree.occursIn]
  | c :: cs => by
      rw [BuildTree.occursIn, Bool.or_eq_true, List.isPrefixOf_iff_prefix, occursIn_iff,
        List.infix_cons_iff]

instance (text : List Char) (name : String) : Decidable (Shows text name) :=
  decidable_of_iff _ occursIn_iff

theorem shows_of_mem_lines {ls : List String} {name : String} (h : declaration name ∈ ls) :
    Shows (Text.unlines ls).toList name := by
  unfold Shows
  rw [Text.toList_unlines]
  obtain ⟨a, b, rfl⟩ := List.append_of_mem h
  rw [List.flatMap_append, List.flatMap_cons, List.append_assoc]
  exact ⟨_, _, by rw [List.append_assoc]⟩

theorem notMem_declaration {name : String} (h : '\n' ∉ name.toList) :
    '\n' ∉ (declaration name).toList := by
  rw [toList_declaration]
  simp only [List.mem_append, List.mem_singleton, not_or]
  exact ⟨⟨by decide, h⟩, by decide⟩

/-- What occurs in lines occurs in one of them. -/
theorem infix_unlines {needle : List Char} (hn : '\n' ∉ needle) (hne : needle ≠ []) :
    ∀ {ls : List String}, needle <:+: (Text.unlines ls).toList → ∃ l ∈ ls, needle <:+: l.toList := by
  intro ls
  rw [Text.toList_unlines]
  induction ls with
  | nil =>
    intro h
    exact absurd (List.infix_nil.mp h) hne
  | cons l ls ih =>
    intro h
    rw [List.flatMap_cons, List.append_assoc, List.singleton_append, Text.infix_lineFeed hn] at h
    rcases h with h | h
    · exact ⟨l, List.mem_cons_self, h⟩
    · obtain ⟨l', hl', h⟩ := ih h
      exact ⟨l', List.mem_cons_of_mem l hl', h⟩

/-- A declaration shows no other one. -/
theorem shows_declaration {a b : String} (hb : Unbracketed b) :
    Shows (declaration b).toList a ↔ a = b := by
  constructor
  · rintro ⟨u, v, h⟩
    rw [toList_declaration, toList_declaration] at h
    have hopen : opening = "add_subdirectory".toList ++ ['('] := by decide
    rw [hopen] at h
    have h : "add_subdirectory".toList ++ '(' :: (b.toList ++ ')' :: []) =
        (u ++ "add_subdirectory".toList) ++ '(' :: (a.toList ++ ')' :: v) := by
      simpa using h.symm
    rw [List.append_cons_inj_of_notMem (by decide) (by simp [hb.1])] at h
    obtain ⟨_, _, h⟩ := h
    rw [List.append_cons_inj_of_notMem hb.2 (by simp)] at h
    exact (String.toList_inj.mp h.1).symm
  · rintro rfl
    exact List.infix_rfl

/-! ## 4. One more declaration -/

/-- The text with a further declaration in a line of its own at the end. -/
def extended (text name : String) : String :=
  text ++ (BuildTree.separator text ++ declaration name ++ "\n")

/-- A text with a further line: either it ended in a line feed, or it is given
one, or it was empty. -/
theorem toList_extended (text name : String) :
    (text = "" ∧ (extended text name).toList = (declaration name).toList ++ ['\n']) ∨
    (∃ a, (text.toList = a ++ ['\n'] ∨ text.toList = a) ∧
      (extended text name).toList = a ++ '\n' :: ((declaration name).toList ++ ['\n'])) := by
  unfold extended BuildTree.separator
  split
  · rename_i h
    have htext : text = "" := by
      rw [← String.toList_inj]
      simpa using List.getLast?_eq_none_iff.mp h
    subst htext
    exact .inl ⟨rfl, by simp⟩
  · rename_i h
    obtain ⟨a, ha⟩ := List.getLast?_eq_some_iff.mp h
    exact .inr ⟨a, .inl ha, by simp [ha]⟩
  · exact .inr ⟨text.toList, .inr rfl, by simp⟩

/-- **By lines, a further declaration is one more, at the end.** -/
theorem declarations_extended {name : String} (ht : Trimmed name) (hn : '\n' ∉ name.toList)
    (text : String) :
    declarations (extended text name).toList = declarations text.toList ++ [name] := by
  have hline : declarations ((declaration name).toList ++ ['\n']) = [name] := by
    rw [declarations_append_lineFeed, declarations_of_notMem (notMem_declaration hn),
      declared?_declaration ht]
    rfl
  rcases toList_extended text name with ⟨rfl, h⟩ | ⟨a, ha, h⟩
  · rw [h, hline]
    rfl
  · rw [h, declarations_append, hline]
    rcases ha with ha | ha <;> simp [ha]

/-- **By text, a further declaration shows itself and what was shown.** -/
theorem shows_extended {name other : String} (hn : '\n' ∉ name.toList) (text : String) :
    Shows (extended text other).toList name ↔
      Shows text.toList name ∨ Shows (declaration other).toList name := by
  have hline : ∀ cs : List Char, (declaration name).toList <:+: cs ++ ['\n'] ↔
      (declaration name).toList <:+: cs := by
    intro cs
    rw [Text.infix_lineFeed (notMem_declaration hn)]
    have : ¬(declaration name).toList <:+: [] := by
      rw [List.infix_nil]
      exact declaration_ne_nil name
    simp [this]
  unfold Shows
  rcases toList_extended text other with ⟨rfl, h⟩ | ⟨a, ha, h⟩
  · rw [h, hline]
    have : ¬(declaration name).toList <:+: "".toList := by
      rw [String.toList_empty, List.infix_nil]
      exact declaration_ne_nil name
    exact ⟨.inr, fun h => h.resolve_left this⟩
  · rw [h, Text.infix_lineFeed (notMem_declaration hn), hline]
    rcases ha with ha | ha <;> simp [ha, hline]

end Scaffold.Artifact.BuildList
