import PathFold.Path.Symbol

/-! Tables by what has been recorded. Recording names one after the other gives the table of all of
them in first-seen order, for as long as the distinct ones fit. -/

namespace PathFold.SymbolTable

/-- The table of these names, each at the place where it is first seen. -/
def ofNames (names : List Bytes) : SymbolTable := ⟨names.eraseDups⟩

/-- Whether a table has room for these names, each counted once. -/
def Fits (names : List Bytes) : Prop := names.eraseDups.length ≤ capacity

instance (names : List Bytes) : Decidable (Fits names) :=
  inferInstanceAs (Decidable (_ ≤ _))

variable {names : List Bytes} {name : Bytes}

theorem ofNames_concat_of_mem (known : name ∈ names) :
    ofNames (names ++ [name]) = ofNames names := by
  simp [ofNames, List.eraseDups_append, List.cons_removeAll, known]

theorem ofNames_concat_of_not_mem (unknown : name ∉ names) :
    ofNames (names ++ [name]) = ⟨(ofNames names).names ++ [name]⟩ := by
  simp [ofNames, List.eraseDups_append, List.cons_removeAll, unknown, List.eraseDups_cons]

theorem mem_ofNames : name ∈ (ofNames names).names ↔ name ∈ names := List.mem_eraseDups

theorem fits_iff_size_le : Fits names ↔ (ofNames names).size ≤ capacity := Iff.rfl

/-- Names fit if more names do. -/
theorem Fits.of_append {more : List Bytes} (h : Fits (names ++ more)) : Fits names := by
  rw [Fits, List.eraseDups_append, List.length_append] at h
  exact Nat.le_trans (Nat.le_add_right _ _) h

theorem record_of_fits (h : Fits (names ++ [name])) :
    ∃ symbol, (ofNames names).record name = .ok (symbol, ofNames (names ++ [name])) := by
  by_cases known : name ∈ names
  · rw [ofNames_concat_of_mem known]
    exact ⟨_, record_of_mem (mem_ofNames.2 known)⟩
  · rw [fits_iff_size_le, ofNames_concat_of_not_mem known, size, List.length_append] at h
    rw [ofNames_concat_of_not_mem known, record_of_not_mem (mt mem_ofNames.1 known)]
    exact ⟨_, if_neg (Nat.not_le_of_lt h)⟩

theorem record_of_not_fits (before : Fits names) (h : ¬ Fits (names ++ [name])) :
    (ofNames names).record name = .error (.symbolCapacity capacity) := by
  have unknown : name ∉ names := by
    intro known
    rw [fits_iff_size_le, ofNames_concat_of_mem known] at h
    exact h before
  rw [fits_iff_size_le, ofNames_concat_of_not_mem unknown, size, List.length_append] at h
  rw [record_of_not_mem (mt mem_ofNames.1 unknown)]
  exact if_pos (Nat.le_of_not_lt h)

end PathFold.SymbolTable
