import Scaffold.Mocks
import Scaffold.Proofs.Path.Pieces

/-!
# Names of mock files

The mock of a header is three files in one directory, and all three are named after the
header. The mock source leaves out the extension.

* `fileNames` -- these names; `PassesFor`: one of them is the name of another header;
* `Clash` -- two headers whose names differ in their extensions only, or one of which has a file
  that passes for the other; `clash_iff`: **these are the headers whose mocks have a file in
  common**.
-/
namespace Scaffold.Mocks

/-! ## 1. Three names -/

/-- The name of the mock header. -/
def headerName (n : String) : String := "mock_" ++ n

/-- The name of the mock source. -/
def sourceName (n : String) : String := "mock_" ++ (Path.cutName n).1 ++ ".cpp"

/-- The artifacts of the mock of a header with their names; the marker comes last. -/
def artifacts (n : String) : List (Artifact × String) :=
  [(.mockHeader, headerName n), (.mockSource, sourceName n), (.interfaceHeader, n)]

/-- The names of the files of the mock of a header. -/
def fileNames (n : String) : List String := (artifacts n).map Prod.snd

variable {n m x : String}

theorem mem_fileNames : x ∈ fileNames n ↔ x = headerName n ∨ x = sourceName n ∨ x = n := by
  simp [fileNames, artifacts]

/-- A file of the mock of the first header has the name of the second, and passes for its
marker. -/
def PassesFor (n m : String) : Prop := m = headerName n ∨ m = sourceName n

/-- The mocks of two headers of one directory get in each other's way: the headers differ in
nothing but their extension, or a mock file passes for the marker of the other. -/
def Clash (n m : String) : Prop :=
  n ≠ m ∧ ((Path.cutName n).1 = (Path.cutName m).1 ∨ PassesFor n m ∨ PassesFor m n)

instance (n m : String) : Decidable (PassesFor n m) := inferInstanceAs (Decidable (_ ∨ _))

instance (n m : String) : Decidable (Clash n m) := inferInstanceAs (Decidable (_ ∧ _))

theorem stem_ne_empty (hn : n ≠ "") : (Path.cutName n).1 ≠ "" := by
  unfold Path.cutName
  split
  · intro h
    have := congrArg String.toList h
    simp at this
  · exact hn

/-- No name begins with `mock_` and goes on with itself. -/
theorem ne_headerName (n : String) : n ≠ headerName n := by
  intro h
  have hmock : "mock_".toList.length = 5 := rfl
  have hlength := congrArg (fun s => s.toList.length) h
  simp only [headerName, String.toList_append, List.length_append] at hlength
  omega

/-- The files beside a marker have other names. -/
theorem not_passesFor_self (n : String) : ¬PassesFor n n := by
  rintro (h | h)
  · exact ne_headerName n h
  · have hcut := Path.cutName_cpp (s := headerName (Path.cutName n).1) (by simp [headerName])
    change Path.cutName (sourceName n) = _ at hcut
    rw [← h] at hcut
    exact ne_headerName _ (congrArg Prod.fst hcut)

/-- **The three names are different**, unless the header has the extension of a mock source. -/
theorem fileNames_nodup (hcpp : (Path.cutName n).2 ≠ some "cpp") : (fileNames n).Nodup := by
  have hpass := not_passesFor_self n
  have hcross : headerName n ≠ sourceName n := by
    intro h
    unfold headerName sourceName at h
    rw [String.append_assoc, String.append_right_inj] at h
    have hstem : (Path.cutName n).1 ≠ "" := stem_ne_empty fun hn => by simp [hn] at h
    have hcut := Path.cutName_cpp hstem
    rw [← h] at hcut
    exact hcpp (congrArg Prod.snd hcut)
  unfold PassesFor at hpass
  rw [not_or] at hpass
  change [headerName n, sourceName n, n].Nodup
  simp [hcross, Ne.symm hpass.1, Ne.symm hpass.2]

/-- **Two mocks clash just when they have a file in common.** -/
theorem clash_iff (hn : n ≠ "") (hm : m ≠ "") :
    Clash n m ↔ n ≠ m ∧ ∃ x ∈ fileNames n, x ∈ fileNames m := by
  refine and_congr_right fun hne => ?_
  constructor
  · rintro (hstem | hpass | hpass)
    · refine ⟨sourceName n, mem_fileNames.mpr (.inr (.inl rfl)), mem_fileNames.mpr (.inr (.inl ?_))⟩
      unfold sourceName
      rw [hstem]
    · exact ⟨m, mem_fileNames.mpr (or_assoc.mp (.inl hpass)), mem_fileNames.mpr (.inr (.inr rfl))⟩
    · exact ⟨n, mem_fileNames.mpr (.inr (.inr rfl)), mem_fileNames.mpr (or_assoc.mp (.inl hpass))⟩
  · -- a mock header is named as the mock source of the other only if the stems are the same
    have hcross : ∀ {a b : String}, b ≠ "" → headerName a = sourceName b →
        (Path.cutName a).1 = (Path.cutName b).1 := by
      intro a b hb h
      unfold headerName sourceName at h
      rw [String.append_assoc, String.append_right_inj] at h
      rw [h, Path.cutName_cpp (stem_ne_empty hb)]
    rintro ⟨x, hx, hx'⟩
    rcases mem_fileNames.mp hx with rfl | rfl | rfl <;> rcases mem_fileNames.mp hx' with h | h | h
    · exact absurd ((String.append_right_inj _).mp h) hne
    · exact .inl (hcross hm h)
    · exact .inr (.inl (.inl h.symm))
    · exact .inl (hcross hn h.symm).symm
    · unfold sourceName at h
      rw [String.append_left_inj, String.append_right_inj] at h
      exact .inl h
    · exact .inr (.inl (.inr h.symm))
    · exact .inr (.inr (.inl h))
    · exact .inr (.inr (.inr h))
    · exact absurd h hne

end Scaffold.Mocks
