import PathFold.Json.Gap
import PathFold.Proofs.Grammar.Lexeme

/-! Gaps are read exactly. What is taken as a closed gap is one, and a gap is taken whole when
nothing that could prolong it comes after it. -/

namespace PathFold.Json

theorem isBlank_iff {b : UInt8} : isBlank b = true ↔ IsBlank b := by
  simp [isBlank, IsBlank, or_assoc]

namespace Extent

theorem line_append {body : Bytes} (h : 0x0A ∉ body) (rest : Bytes) :
    line (body ++ 0x0A :: rest) = body.length + 1 := by
  induction body with
  | nil => simp [line]
  | cons b body ih =>
    obtain ⟨hb, htail⟩ := not_or.1 (mt List.mem_cons.2 h)
    simp [line, Ne.symm hb, ih htail]
    omega

theorem line_of_not_mem {bytes : Bytes} (h : 0x0A ∉ bytes) : line bytes = bytes.length := by
  induction bytes with
  | nil => rfl
  | cons b rest ih =>
    obtain ⟨hb, htail⟩ := not_or.1 (mt List.mem_cons.2 h)
    simp [line, Ne.symm hb, ih htail]
    omega

/-- A block comment's body, up to the first closing mark. -/
theorem block?_append {body : Bytes} (h : ClosesFirst body) (rest : Bytes) :
    block? (body ++ 0x2A :: 0x2F :: rest) = some (body.length + 2) := by
  induction body with
  | nil => simp [block?]
  | cons b body ih =>
    have tail : ClosesFirst body := fun inside => h (inside.trans (List.suffix_cons _ _).isInfix)
    -- A mark that closes here would close the comment before its end.
    have open_ : ¬ (b = 0x2A ∧ (body ++ 0x2A :: 0x2F :: rest).head? = some 0x2F) := by
      rintro ⟨rfl, head⟩
      cases body with
      | nil => simp at head
      | cons c body =>
        have hc : c = 0x2F := by simpa using head
        subst hc
        exact h ⟨[], body ++ [0x2A], by simp⟩
    simp only [List.cons_append, block?, if_neg open_, ih tail, Option.map_some,
      List.length_cons]
    congr 1
    omega

theorem closesFirst_nil : ClosesFirst [] := by
  intro inside
  have := inside.length_le
  simp at this

theorem closesFirst_cons {b : UInt8} {body : Bytes} (h : ClosesFirst body)
    (notHere : ¬ (b = 0x2A ∧ body.head? = some 0x2F)) : ClosesFirst (b :: body) := by
  intro inside
  rw [List.cons_append, List.infix_cons_iff] at inside
  rcases inside with atFront | later
  · obtain ⟨rfl, front⟩ := List.cons_prefix_cons.1 atFront
    refine notHere ⟨rfl, ?_⟩
    cases body with
    | nil => simp at front
    | cons c body => simp [(List.cons_prefix_cons.1 front).1]
  · exact h later

theorem eq_append_of_block? {bytes : Bytes} {n : Nat} (h : block? bytes = some n) :
    ∃ body rest, bytes = body ++ 0x2A :: 0x2F :: rest ∧ ClosesFirst body ∧ n = body.length + 2 := by
  induction bytes generalizing n with
  | nil => simp [block?] at h
  | cons b bytes ih =>
    rw [block?] at h
    split at h
    · rename_i close
      obtain ⟨rfl, head⟩ := close
      obtain ⟨rest, rfl⟩ := List.head?_eq_some_iff.1 head
      cases h
      exact ⟨[], rest, rfl, closesFirst_nil, rfl⟩
    · rename_i notHere
      obtain ⟨m, hm, rfl⟩ := Option.map_eq_some_iff.1 h
      obtain ⟨body, rest, rfl, first, rfl⟩ := ih hm
      refine ⟨b :: body, rest, rfl, closesFirst_cons first ?_, by simp; omega⟩
      rintro ⟨rfl, head⟩
      exact notHere ⟨rfl, by rw [List.head?_append, head, Option.some_or]⟩

/-- A body that is never closed is closed by what comes next. -/
theorem closesFirst_of_block? {body : Bytes} (h : block? body = none) : ClosesFirst body := by
  induction body with
  | nil => exact closesFirst_nil
  | cons b body ih =>
    rw [block?] at h
    split at h
    · cases h
    · rename_i notHere
      exact closesFirst_cons (ih (Option.map_eq_none_iff.1 h)) notHere

end Extent

/-- Nothing at the front goes on with a gap. -/
def NoGapAhead (rest : Bytes) : Prop := ∀ b ∈ rest.head?, isBlank b = false ∧ b ≠ 0x2F

theorem noGapAhead_nil : NoGapAhead [] := by simp [NoGapAhead]

theorem noGapAhead_cons {b : UInt8} {rest : Bytes} :
    NoGapAhead (b :: rest) ↔ isBlank b = false ∧ b ≠ 0x2F := by
  simp [NoGapAhead]

namespace Gap

/-- Reading a gap, as far as its first comment. -/
theorem ofFront_eq (comments : Bool) (bytes : Bytes) : ofFront comments bytes =
    match comments, bytes.drop (Extent.blanks bytes) with
    | true, a :: b :: body =>
      if a = 0x2F ∧ b = 0x2F then
        (ofFront true (body.drop (Extent.line body))).after
          (Extent.blanks bytes + 2 + Extent.line body)
      else if a = 0x2F ∧ b = 0x2A then
        match Extent.block? body with
        | some m => (ofFront true (body.drop m)).after (Extent.blanks bytes + 2 + m)
        | none => ⟨Extent.blanks bytes + 2 + body.length, false⟩
      else ⟨Extent.blanks bytes, true⟩
    | _, _ => ⟨Extent.blanks bytes, true⟩ := by
  rw [ofFront]
  cases comments with
  | false => rfl
  | true =>
    rw [if_pos rfl]
    split
    · rename_i front
      rewrite [front]
      rfl
    · rename_i front
      split
      · rename_i again
        exact (front _ _ _ again).elim
      · rfl

theorem ofFront_blank {b : UInt8} (h : isBlank b) (comments : Bool) (rest : Bytes) :
    ofFront comments (b :: rest) = (ofFront comments rest).after 1 := by
  have count : Extent.blanks (b :: rest) = Extent.blanks rest + 1 := by simp [Extent.blanks, h]
  rw [ofFront_eq, ofFront_eq comments rest, count, List.drop_succ_cons]
  split
  · split
    · simp [after]
      omega
    · split
      · split <;> simp [after] <;> omega
      · simp [after]
        omega
  · simp [after]
    omega

theorem ofFront_of_noGapAhead (comments : Bool) {rest : Bytes} (h : NoGapAhead rest) :
    ofFront comments rest = ⟨0, true⟩ := by
  cases rest with
  | nil =>
    rw [ofFront_eq]
    cases comments <;> rfl
  | cons b rest =>
    obtain ⟨hb, hs⟩ := noGapAhead_cons.1 h
    have count : Extent.blanks (b :: rest) = 0 := by simp [Extent.blanks, hb]
    rw [ofFront_eq, count, List.drop_zero]
    split
    · rename_i front
      cases front
      simp [hs]
    · rfl

theorem ofFront_line (body : Bytes) :
    ofFront true (0x2F :: 0x2F :: body) =
      (ofFront true (body.drop (Extent.line body))).after (2 + Extent.line body) := by
  have count : Extent.blanks (0x2F :: 0x2F :: body) = 0 := rfl
  rw [ofFront_eq, count]
  simp

theorem ofFront_block {body : Bytes} {n : Nat} (h : Extent.block? body = some n) :
    ofFront true (0x2F :: 0x2A :: body) = (ofFront true (body.drop n)).after (2 + n) := by
  have count : Extent.blanks (0x2F :: 0x2A :: body) = 0 := rfl
  rw [ofFront_eq, count]
  simp [h]

@[simp] theorem after_after (n m : Nat) (gap : Gap) :
    (gap.after n).after m = gap.after (m + n) := by
  simp [after, Nat.add_assoc]

/-- Reading goes on after a gap as it would from there. -/
theorem ofFront_append {comments : Bool} {gap : Bytes} (h : IsGap comments gap) (rest : Bytes) :
    ofFront comments (gap ++ rest) = (ofFront comments rest).after gap.length := by
  induction h with
  | nil => simp [after]
  | @blank b gap blank _ ih =>
    rw [List.cons_append, ofFront_blank (isBlank_iff.2 blank), ih, after_after, List.length_cons,
      Nat.add_comm]
  | @line body gap allowed inside _ ih =>
    subst allowed
    have count := Extent.line_append inside (gap ++ rest)
    simp only [List.cons_append, List.append_assoc, ofFront_line, count,
      List.drop_length_add_append, List.drop_succ_cons, List.drop_zero, ih, after_after]
    congr 1
    simp
    omega
  | @block body gap allowed first _ ih =>
    subst allowed
    have count := Extent.block?_append first (gap ++ rest)
    simp only [List.cons_append, List.append_assoc, ofFront_block count,
      List.drop_length_add_append, List.drop_succ_cons, List.drop_zero, ih, after_after]
    congr 1
    simp
    omega

/-- A gap is taken as far as it goes if nothing ahead goes on with it. -/
theorem ofFront_of_isGap {comments : Bool} {gap rest : Bytes} (h : IsGap comments gap)
    (stop : NoGapAhead rest) : ofFront comments (gap ++ rest) = ⟨gap.length, true⟩ := by
  rw [ofFront_append h, ofFront_of_noGapAhead comments stop]
  simp [after]

theorem ofFront_of_isLastGap {comments : Bool} {gap : Bytes} (h : IsLastGap comments gap) :
    ofFront comments gap = ⟨gap.length, true⟩ := by
  cases h with
  | closed h =>
    simpa using ofFront_of_isGap h noGapAhead_nil
  | @openLine gap body allowed before inside =>
    subst allowed
    rw [ofFront_append before, ofFront_line, Extent.line_of_not_mem inside, List.drop_length,
      ofFront_of_noGapAhead true noGapAhead_nil]
    simp [after]
    omega

end Gap

theorem IsGap.append_blanks {comments : Bool} {blanks rest : Bytes}
    (h : ∀ b ∈ blanks, IsBlank b) (tail : IsGap comments rest) :
    IsGap comments (blanks ++ rest) := by
  induction blanks with
  | nil => exact tail
  | cons b blanks ih =>
    obtain ⟨hb, hrest⟩ := List.forall_mem_cons.1 h
    exact .blank hb (ih hrest)

theorem IsGap.append {comments : Bool} {gap rest : Bytes} (h : IsGap comments gap)
    (tail : IsGap comments rest) : IsGap comments (gap ++ rest) := by
  induction h with
  | nil => exact tail
  | blank blank _ ih => exact .blank blank ih
  | line allowed inside _ ih =>
    have h := IsGap.line allowed inside ih
    simpa only [List.cons_append, List.append_assoc] using h
  | block allowed first _ ih =>
    have h := IsGap.block allowed first ih
    simpa only [List.cons_append, List.append_assoc] using h

theorem IsLastGap.append {comments : Bool} {gap rest : Bytes} (h : IsGap comments gap)
    (tail : IsLastGap comments rest) : IsLastGap comments (gap ++ rest) := by
  cases tail with
  | closed tail => exact .closed (h.append tail)
  | openLine allowed before inside =>
    rw [← List.append_assoc]
    exact .openLine allowed (h.append before) inside

namespace Extent

theorem blanks_split (bytes : Bytes) : ∃ front, (∀ b ∈ front, IsBlank b) ∧
    bytes = front ++ bytes.drop (blanks bytes) ∧ blanks bytes = front.length := by
  refine ⟨bytes.takeWhile isBlank, fun b mem => ?_, ?_, rfl⟩
  · exact isBlank_iff.1 (List.all_eq_true.1 List.all_takeWhile b mem)
  · rw [blanks, drop_takeWhile_length, List.takeWhile_append_dropWhile]

theorem line_split (bytes : Bytes) : (0x0A ∉ bytes ∧ line bytes = bytes.length) ∨
    ∃ body rest, 0x0A ∉ body ∧ bytes = body ++ 0x0A :: rest ∧ line bytes = body.length + 1 := by
  by_cases h : 0x0A ∈ bytes
  · obtain ⟨body, rest, rfl, inside⟩ := List.eq_append_cons_of_mem h
    exact .inr ⟨body, rest, inside, rfl, line_append inside rest⟩
  · exact .inl ⟨h, line_of_not_mem h⟩

end Extent

/-- A gap of this length is at the front. Only the end of the input may cut it off. -/
def GapAtFront (comments : Bool) (bytes : Bytes) (n : Nat) : Prop :=
  ∃ gap rest, bytes = gap ++ rest ∧ n = gap.length ∧ IsLastGap comments gap ∧
    (rest ≠ [] → IsGap comments gap)

theorem IsGap.atFront {comments : Bool} {gap : Bytes} (h : IsGap comments gap) (rest : Bytes) :
    GapAtFront comments (gap ++ rest) gap.length :=
  ⟨gap, rest, rfl, rfl, .closed h, fun _ => h⟩

theorem IsLastGap.atFront {comments : Bool} {gap : Bytes} (h : IsLastGap comments gap) :
    GapAtFront comments gap gap.length :=
  ⟨gap, [], (List.append_nil _).symm, rfl, h, fun no => absurd rfl no⟩

theorem GapAtFront.append {comments : Bool} {gap rest : Bytes} {n : Nat} (h : IsGap comments gap)
    (tail : GapAtFront comments rest n) : GapAtFront comments (gap ++ rest) (gap.length + n) := by
  obtain ⟨more, after, rfl, rfl, last, closed⟩ := tail
  refine ⟨gap ++ more, after, ?_, ?_, last.append h, fun ahead => h.append (closed ahead)⟩
  · rw [List.append_assoc]
  · rw [List.length_append]

theorem GapAtFront.nil {comments : Bool} (bytes : Bytes) : GapAtFront comments bytes 0 :=
  IsGap.nil.atFront bytes

theorem GapAtFront.blanks {comments : Bool} {bytes : Bytes} {n : Nat}
    (h : GapAtFront comments (bytes.drop (Extent.blanks bytes)) n) :
    GapAtFront comments bytes (Extent.blanks bytes + n) := by
  obtain ⟨front, blank, split, length⟩ := Extent.blanks_split bytes
  have gap : IsGap comments front := by simpa using IsGap.append_blanks blank .nil
  have whole := GapAtFront.append gap h
  rwa [← split, ← length] at whole

theorem GapAtFront.line {body : Bytes} {n : Nat}
    (h : GapAtFront true (body.drop (Extent.line body)) n) :
    GapAtFront true (0x2F :: 0x2F :: body) (2 + Extent.line body + n) := by
  rcases Extent.line_split body with ⟨inside, count⟩ | ⟨text, rest, inside, rfl, count⟩
  · rw [count, List.drop_length] at h
    obtain ⟨gap, after, split, rfl, -⟩ := h
    obtain ⟨rfl, rfl⟩ := List.nil_eq_append_iff.1 split
    have comment := (IsLastGap.openLine rfl .nil inside).atFront
    have length : 2 + Extent.line body + 0 = ([] ++ 0x2F :: 0x2F :: body : Bytes).length := by
      simp [count]
      omega
    rw [List.length_nil, length]
    exact comment
  · have comment := IsGap.line rfl inside .nil
    have length : 2 + (text.length + 1) = (0x2F :: 0x2F :: (text ++ [0x0A])).length := by
      simp
      omega
    rw [count, List.drop_length_add_append, List.drop_succ_cons, List.drop_zero] at h
    rw [count, length]
    simpa using GapAtFront.append comment h

theorem GapAtFront.block {body : Bytes} {m n : Nat} (closed : Extent.block? body = some m)
    (h : GapAtFront true (body.drop m) n) :
    GapAtFront true (0x2F :: 0x2A :: body) (2 + m + n) := by
  obtain ⟨text, rest, rfl, first, rfl⟩ := Extent.eq_append_of_block? closed
  have comment := IsGap.block rfl first .nil
  have length : 2 + (text.length + 2) = (0x2F :: 0x2A :: (text ++ [0x2A, 0x2F])).length := by
    simp
    omega
  rw [List.drop_length_add_append, List.drop_succ_cons, List.drop_succ_cons, List.drop_zero] at h
  rw [length]
  simpa using GapAtFront.append comment h

namespace Gap

/-- What is read as a closed gap is a gap. -/
theorem atFront_of_closed {comments : Bool} {bytes : Bytes}
    (h : (ofFront comments bytes).closed = true) :
    GapAtFront comments bytes (ofFront comments bytes).length := by
  fun_induction ofFront comments bytes with
  | case1 bytes n allowed a b body front hab m ih =>
    obtain ⟨rfl, rfl⟩ := hab
    subst allowed
    have tail := GapAtFront.line (ih h)
    rw [← front] at tail
    have whole := GapAtFront.blanks tail
    rwa [← Nat.add_assoc, ← Nat.add_assoc] at whole
  | case2 bytes n allowed a b body front _ hab m hm ih =>
    obtain ⟨rfl, rfl⟩ := hab
    subst allowed
    have tail := GapAtFront.block hm (ih h)
    rw [← front] at tail
    have whole := GapAtFront.blanks tail
    rwa [← Nat.add_assoc, ← Nat.add_assoc] at whole
  | case3 bytes n _ a b body front => simp at h
  | case4 bytes n => exact GapAtFront.blanks (GapAtFront.nil _)
  | case5 bytes n => exact GapAtFront.blanks (GapAtFront.nil _)
  | case6 bytes n => exact GapAtFront.blanks (GapAtFront.nil _)

end Gap

/-- The beginning of a gap: bytes that more bytes make a gap. -/
def BeginsGap (comments : Bool) (bytes : Bytes) : Prop := ∃ more, IsGap comments (bytes ++ more)

namespace BeginsGap

theorem append {comments : Bool} {gap rest : Bytes} (h : IsGap comments gap)
    (tail : BeginsGap comments rest) : BeginsGap comments (gap ++ rest) := by
  obtain ⟨more, tail⟩ := tail
  refine ⟨more, ?_⟩
  rw [List.append_assoc]
  exact h.append tail

/-- An open line comment goes on up to a line feed. -/
theorem of_isLastGap {comments : Bool} {gap : Bytes} (h : IsLastGap comments gap) :
    BeginsGap comments gap := by
  cases h with
  | closed gap => exact ⟨[], by rwa [List.append_nil]⟩
  | openLine allowed before inside => exact append before ⟨[0x0A], .line allowed inside .nil⟩

theorem blanks {comments : Bool} {bytes : Bytes}
    (h : BeginsGap comments (bytes.drop (Extent.blanks bytes))) : BeginsGap comments bytes := by
  obtain ⟨front, blank, split, -⟩ := Extent.blanks_split bytes
  have gap : IsGap comments front := by simpa using IsGap.append_blanks blank .nil
  rw [split]
  exact append gap h

theorem line {body : Bytes} (h : BeginsGap true (body.drop (Extent.line body))) :
    BeginsGap true (0x2F :: 0x2F :: body) := by
  rcases Extent.line_split body with ⟨inside, -⟩ | ⟨text, rest, inside, rfl, count⟩
  · exact ⟨[0x0A], .line rfl inside .nil⟩
  · rw [count, List.drop_length_add_append, List.drop_succ_cons, List.drop_zero] at h
    simpa using append (.line rfl inside .nil) h

theorem block {body : Bytes} {n : Nat} (closed : Extent.block? body = some n)
    (h : BeginsGap true (body.drop n)) : BeginsGap true (0x2F :: 0x2A :: body) := by
  obtain ⟨text, rest, rfl, first, rfl⟩ := Extent.eq_append_of_block? closed
  rw [List.drop_length_add_append, List.drop_succ_cons, List.drop_succ_cons, List.drop_zero] at h
  simpa using append (.block rfl first .nil) h

/-- A block comment that is not closed takes all bytes there are. -/
theorem of_not_closed {comments : Bool} {bytes : Bytes}
    (h : (Gap.ofFront comments bytes).closed = false) :
    (Gap.ofFront comments bytes).length = bytes.length ∧ BeginsGap comments bytes := by
  fun_induction Gap.ofFront comments bytes with
  | case1 bytes n allowed a b body front hab m ih =>
    obtain ⟨rfl, rfl⟩ := hab
    subst allowed
    obtain ⟨length, begins⟩ := ih h
    have whole := congrArg List.length front
    have within := Extent.line_le body
    refine ⟨?_, .blanks (front ▸ begins.line)⟩
    simp only [List.length_drop, List.length_cons, Gap.after_length] at length whole ⊢
    omega
  | case2 bytes n allowed a b body front _ hab m hm ih =>
    obtain ⟨rfl, rfl⟩ := hab
    subst allowed
    obtain ⟨length, begins⟩ := ih h
    have whole := congrArg List.length front
    have within := Extent.block?_le hm
    refine ⟨?_, .blanks (front ▸ begins.block hm)⟩
    simp only [List.length_drop, List.length_cons, Gap.after_length] at length whole ⊢
    omega
  | case3 bytes n allowed a b body front _ hab hm =>
    obtain ⟨rfl, rfl⟩ := hab
    subst allowed
    have whole := congrArg List.length front
    have open_ : BeginsGap true (0x2F :: 0x2A :: body) :=
      ⟨[0x2A, 0x2F], .block rfl (Extent.closesFirst_of_block? hm) .nil⟩
    refine ⟨?_, .blanks (front ▸ open_)⟩
    simp only [List.length_drop, List.length_cons] at whole ⊢
    omega
  | case4 bytes n => cases h
  | case5 bytes n => cases h
  | case6 bytes n => cases h

end BeginsGap

end PathFold.Json
