import PathFold.Except
import PathFold.Proofs.Grammar.Escape

/-! What the contents of a string stand for, as a relation on bytes. Contents split into pieces,
plain bytes and escapes, as far as the first escape that is not well formed; replacing the escapes
gives what the pieces stand for, or the fault of that escape. -/

namespace PathFold.Json.Escape

/-- What bytes stand for between quotes: a byte other than a backslash for itself, and an escape for
the UTF-8 form of its character. -/
inductive Denotes : Bytes → Bytes → Prop
  | nil : Denotes [] []
  | plain {b raw bytes} : b ≠ 0x5C → Denotes raw bytes → Denotes (b :: raw) (b :: bytes)
  | escape {escape raw bytes} {c : Char} : IsEscape escape c.toNat → Denotes raw bytes →
      Denotes (escape ++ raw) (String.utf8EncodeChar c ++ bytes)

theorem unescape_of_plain {b : UInt8} (h : b ≠ 0x5C) (raw : Bytes) :
    unescape (b :: raw) = (unescape raw).map (b :: ·) := by
  rw [unescape, if_neg h]

theorem unescape_of_backslash (raw : Bytes) : unescape (0x5C :: raw) =
    match read (0x5C :: raw) with
    | .error fault => .error fault
    | .ok (c, n) => (unescape ((0x5C :: raw).drop n)).map (String.utf8EncodeChar c ++ ·) := by
  rw [unescape, if_pos rfl]
  split <;> rename_i ok <;> rw [ok]

theorem unescape_of_isEscape {escape : Bytes} {c : Char} (h : IsEscape escape c.toNat)
    (raw : Bytes) :
    unescape (escape ++ raw) = (unescape raw).map (String.utf8EncodeChar c ++ ·) := by
  obtain ⟨d, same, ok⟩ := read_append h raw
  obtain rfl : d = c := Char.toNat_inj.1 same
  obtain ⟨tail, rfl⟩ := head_of_isEscape h
  rw [List.cons_append, unescape_of_backslash, ← List.cons_append, ok]
  dsimp only
  rw [List.drop_left]

theorem unescape_of_isBadEscape {bytes : Bytes} {fault : EscapeFault}
    (h : IsBadEscape bytes fault) : unescape bytes = .error fault := by
  have refused := read_of_isBadEscape h
  obtain ⟨tail, rfl⟩ : ∃ tail, bytes = 0x5C :: tail := by
    cases h <;> exact ⟨_, rfl⟩
  rw [unescape_of_backslash, refused]

/-- Replacing the escapes goes piece by piece. -/
theorem Denotes.unescape_append {raw bytes : Bytes} (h : Denotes raw bytes) (rest : Bytes) :
    unescape (raw ++ rest) = (unescape rest).map (bytes ++ ·) := by
  induction h with
  | nil => exact (congrFun Except.map_id _).symm
  | plain noBackslash _ ih =>
    rw [List.cons_append, unescape_of_plain noBackslash, ih, Except.map_map]
    rfl
  | escape isEscape _ ih =>
    rw [List.append_assoc, unescape_of_isEscape isEscape, ih, Except.map_map]
    simp only [Function.comp_def, List.append_assoc]

theorem Denotes.unescape_eq {raw bytes : Bytes} (h : Denotes raw bytes) :
    unescape raw = .ok bytes := by
  have whole := h.unescape_append []
  rw [List.append_nil, unescape] at whole
  simpa [Except.map] using whole

/-- Contents split into pieces, at least as far as an escape that is not well formed. -/
theorem denotes_or_isBadEscape (raw : Bytes) : (∃ bytes, Denotes raw bytes) ∨
    ∃ front rest bytes fault, raw = front ++ rest ∧ Denotes front bytes ∧
      IsBadEscape rest fault := by
  induction raw using unescape.induct with
  | case1 => exact .inl ⟨[], .nil⟩
  | case2 rest fault refused =>
    exact .inr ⟨[], _, [], fault, rfl, .nil, isBadEscape_of_read refused⟩
  | case3 rest c n ok ih =>
    obtain ⟨escape, after, whole, rfl, isEscape⟩ := isEscape_of_read ok
    rw [whole, List.drop_left] at ih
    rw [whole]
    rcases ih with ⟨bytes, denotes⟩ | ⟨front, rest, bytes, fault, rfl, denotes, bad⟩
    · exact .inl ⟨_, .escape isEscape denotes⟩
    · refine .inr ⟨escape ++ front, rest, _, fault, ?_, .escape isEscape denotes, bad⟩
      rw [List.append_assoc]
  | case4 b rest noBackslash ih =>
    rcases ih with ⟨bytes, denotes⟩ | ⟨front, rest, bytes, fault, rfl, denotes, bad⟩
    · exact .inl ⟨_, .plain noBackslash denotes⟩
    · exact .inr ⟨b :: front, rest, _, fault, rfl, .plain noBackslash denotes, bad⟩

/-- Replacing the escapes succeeds on contents that split into pieces, and gives what they stand
for. -/
theorem unescape_eq_ok_iff {raw bytes : Bytes} : unescape raw = .ok bytes ↔ Denotes raw bytes := by
  refine ⟨fun h => ?_, Denotes.unescape_eq⟩
  rcases denotes_or_isBadEscape raw with ⟨bytes', denotes⟩ | ⟨front, rest, _, _, rfl, denotes, bad⟩
  · rw [denotes.unescape_eq] at h
    cases h
    exact denotes
  · rw [denotes.unescape_append, unescape_of_isBadEscape bad] at h
    cases h

/-- Replacing the escapes fails at the first one that is not well formed. -/
theorem unescape_eq_error_iff {raw : Bytes} {fault : EscapeFault} :
    unescape raw = .error fault ↔ ∃ front rest bytes, raw = front ++ rest ∧ Denotes front bytes ∧
      IsBadEscape rest fault := by
  constructor
  · intro h
    rcases denotes_or_isBadEscape raw with
      ⟨bytes, denotes⟩ | ⟨front, rest, bytes, other, rfl, denotes, bad⟩
    · rw [denotes.unescape_eq] at h
      cases h
    · refine ⟨front, rest, bytes, rfl, denotes, ?_⟩
      rw [denotes.unescape_append, unescape_of_isBadEscape bad] at h
      cases h
      exact bad
  · rintro ⟨front, rest, bytes, rfl, denotes, bad⟩
    rw [denotes.unescape_append, unescape_of_isBadEscape bad]
    rfl

/-- Contents stand for one thing only. -/
theorem Denotes.unique {raw bytes bytes' : Bytes} (h : Denotes raw bytes)
    (h' : Denotes raw bytes') : bytes = bytes' :=
  Except.ok.inj (h.unescape_eq.symm.trans h'.unescape_eq)

theorem denotes_of_not_hasEscape {raw : Bytes} (h : ¬ hasEscape raw = true) : Denotes raw raw := by
  induction raw with
  | nil => exact .nil
  | cons b raw ih =>
    simp only [hasEscape, List.contains_iff_mem, List.mem_cons, not_or] at h ih
    exact .plain (Ne.symm h.1) (ih h.2)

end PathFold.Json.Escape
