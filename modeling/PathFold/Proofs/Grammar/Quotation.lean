import PathFold.Json.Quotation
import PathFold.Proofs.Grammar.Escape

/-! Strings are read exactly. What the reader takes up to a quote are contents of the grammar, and
it takes all contents up to the quote that ends them. -/

namespace PathFold.Json

namespace Quotation

/-- Reading a string, as far as its first escape. -/
theorem ofFront_eq (bytes : Bytes) : ofFront bytes =
    match bytes.drop (Extent.plain bytes) with
    | [] => .unclosed 0
    | b :: rest =>
      if (bytes.take (Extent.plain bytes)).any isControl then .faulty .controlInString 0
      else if b = 0x22 then .closed (Extent.plain bytes) false
      else match Escape.read (b :: rest) with
        | .error fault => .faulty (.escape fault) (Extent.plain bytes)
        | .ok (_, m) => (ofFront (rest.drop (m - 1))).afterEscape (Extent.plain bytes + m) := by
  rw [ofFront]
  split
  · rename_i front
    rw [front]
  · rename_i front
    rewrite [front]
    rfl

theorem closed_of_afterEscape {quotation : Quotation} {m n : Nat} {escaped : Bool}
    (h : quotation.afterEscape m = .closed n escaped) :
    ∃ k flag, quotation = .closed k flag ∧ n = m + k ∧ escaped = true := by
  cases quotation with
  | closed length flag =>
    cases h
    exact ⟨length, flag, rfl, rfl, rfl⟩
  | unclosed => cases h
  | faulty => cases h

theorem ofFront_plain {b : UInt8} {rest : Bytes} {n : Nat} {escaped : Bool} (plain : isPlain b)
    (noControl : isControl b = false) (h : ofFront rest = .closed n escaped) :
    ofFront (b :: rest) = .closed (n + 1) escaped := by
  have count : Extent.plain (b :: rest) = Extent.plain rest + 1 := by simp [Extent.plain, plain]
  rw [ofFront_eq] at h
  rw [ofFront_eq, count, List.drop_succ_cons, List.take_succ_cons, List.any_cons, noControl,
    Bool.false_or]
  split at h
  · cases h
  · split at h
    · cases h
    · rename_i clean
      rw [if_neg clean]
      split at h
      · rename_i quote
        cases h
        rw [if_pos quote]
      · rename_i noQuote
        rw [if_neg noQuote]
        split at h
        · cases h
        · obtain ⟨k, flag, tail, rfl, rfl⟩ := closed_of_afterEscape h
          simp only [tail, afterEscape]
          congr 1
          omega

theorem ofFront_quote (rest : Bytes) : ofFront (0x22 :: rest) = .closed 0 false := by
  rw [ofFront_eq]
  rfl

theorem ofFront_escape {escape : Bytes} {code : Nat} (h : IsEscape escape code) {rest : Bytes}
    {n : Nat} {escaped : Bool} (tail : ofFront rest = .closed n escaped) :
    ofFront (escape ++ rest) = .closed (escape.length + n) true := by
  obtain ⟨c, -, ok⟩ := Escape.read_append h rest
  obtain ⟨others, rfl⟩ := Escape.head_of_isEscape h
  have count : Extent.plain (0x5C :: others ++ rest) = 0 := rfl
  rw [ofFront_eq, count, List.drop_zero]
  simp only [List.cons_append] at ok ⊢
  simp [ok, tail, afterEscape]

/-- All contents are read, up to the quote that ends them. -/
theorem ofFront_append {raw : Bytes} (h : IsContents raw) (rest : Bytes) :
    ofFront (raw ++ 0x22 :: rest) = .closed raw.length (Escape.hasEscape raw) := by
  induction h with
  | nil => exact ofFront_quote rest
  | @plain b raw high noQuote noBackslash _ ih =>
    have plain : isPlain b := by simp [isPlain, noQuote, noBackslash]
    have noControl : isControl b = false := by simpa [isControl] using high
    have flag : Escape.hasEscape (b :: raw) = Escape.hasEscape raw := by
      simp [Escape.hasEscape, Ne.symm noBackslash]
    rw [flag]
    exact ofFront_plain plain noControl ih
  | @escape bytes code raw h _ ih =>
    obtain ⟨others, rfl⟩ := Escape.head_of_isEscape h
    have flag : Escape.hasEscape (0x5C :: others ++ raw) = true := by simp [Escape.hasEscape]
    rw [flag, List.append_assoc, List.length_append]
    exact ofFront_escape h ih

/-- The bytes up to the next quote or backslash, if controls are not among them. -/
theorem plain_of_mem_take {bytes : Bytes}
    (clean : ¬ (bytes.take (Extent.plain bytes)).any isControl = true) :
    ∀ b ∈ bytes.take (Extent.plain bytes), isPlain b = true ∧ isControl b = false := by
  intro b hb
  have noControl : isControl b = false := by
    rw [← Bool.not_eq_true]
    exact fun control => clean (List.any_eq_true.2 ⟨b, hb, control⟩)
  have takes : bytes.take (Extent.plain bytes) = bytes.takeWhile isPlain :=
    Extent.take_takeWhile_length isPlain bytes
  rw [takes] at hb
  exact ⟨List.all_eq_true.1 List.all_takeWhile b hb, noControl⟩

theorem isContents_append {front rest : Bytes}
    (plain : ∀ b ∈ front, isPlain b = true ∧ isControl b = false) (tail : IsContents rest) :
    IsContents (front ++ rest) := by
  induction front with
  | nil => exact tail
  | cons b front ih =>
    obtain ⟨⟨hb, high⟩, hfront⟩ := List.forall_mem_cons.1 plain
    simp only [isPlain, Bool.and_eq_true, decide_eq_true_eq] at hb
    have high : 0x20 ≤ b := by simpa [isControl] using high
    exact .plain high hb.1 hb.2 (ih hfront)

theorem hasEscape_append {front : Bytes}
    (plain : ∀ b ∈ front, isPlain b = true ∧ isControl b = false) (rest : Bytes) :
    Escape.hasEscape (front ++ rest) = Escape.hasEscape rest := by
  have none : (0x5C : UInt8) ∉ front := fun here => absurd (plain _ here).1 (by decide)
  simp [Escape.hasEscape, none]

theorem eq_backslash_of_front {bytes rest : Bytes} {b : UInt8}
    (front : bytes.drop (Extent.plain bytes) = b :: rest) (noQuote : ¬ b = 0x22) : b = 0x5C := by
  have drops : bytes.drop (Extent.plain bytes) = bytes.dropWhile isPlain :=
    Extent.drop_takeWhile_length isPlain bytes
  have stop := List.head?_dropWhile_not isPlain bytes
  rw [← drops, front] at stop
  simpa [isPlain, noQuote] using stop

/-- Plain bytes and an escape after them begin contents, which go on after the escape. -/
theorem split_of_escape {bytes rest : Bytes} {b : UInt8} {c : Char} {m : Nat}
    (front : bytes.drop (Extent.plain bytes) = b :: rest)
    (clean : ¬ (bytes.take (Extent.plain bytes)).any isControl = true) (noQuote : ¬ b = 0x22)
    (ok : Escape.read (b :: rest) = .ok (c, m)) :
    ∃ start, bytes = start ++ rest.drop (m - 1) ∧ start.length = Extent.plain bytes + m ∧
      ∀ raw, (IsContents raw → IsContents (start ++ raw)) ∧
        Escape.hasEscape (start ++ raw) = true := by
  obtain rfl := eq_backslash_of_front front noQuote
  have plain := plain_of_mem_take clean
  obtain ⟨escape, others, whole, rfl, isEscape⟩ := Escape.isEscape_of_read ok
  obtain ⟨backslash, rfl⟩ := Escape.head_of_isEscape isEscape
  have drop : rest.drop ((0x5C :: backslash).length - 1) = others := by
    cases whole
    simp
  refine ⟨bytes.take (Extent.plain bytes) ++ (0x5C :: backslash), ?_, ?_, fun raw => ⟨?_, ?_⟩⟩
  · rw [drop, List.append_assoc, ← whole, ← front, List.take_append_drop]
  · rw [List.length_append, List.length_take_of_le (Extent.plain_le bytes)]
  · intro contents
    rw [List.append_assoc]
    exact isContents_append plain (.escape isEscape contents)
  · rw [List.append_assoc, hasEscape_append plain]
    simp [Escape.hasEscape]

/-- What is read up to a quote are contents. -/
theorem isContents_of_closed (bytes : Bytes) : ∀ {n : Nat} {escaped : Bool},
    ofFront bytes = .closed n escaped →
    ∃ raw rest, bytes = raw ++ 0x22 :: rest ∧ raw.length = n ∧ IsContents raw ∧
      escaped = Escape.hasEscape raw := by
  fun_induction ofFront bytes with
  | case1 => rintro _ _ ⟨⟩
  | case2 => rintro _ _ ⟨⟩
  | case3 bytes k rest clean =>
    rename_i front
    rintro _ _ ⟨⟩
    have plain := plain_of_mem_take clean
    have flag := hasEscape_append plain []
    rw [List.append_nil] at flag
    refine ⟨bytes.take (Extent.plain bytes), rest, ?_, ?_, ?_, flag.symm⟩
    · rw [← front, List.take_append_drop]
    · exact List.length_take_of_le (Extent.plain_le bytes)
    · simpa using isContents_append plain .nil
  | case4 => rintro _ _ ⟨⟩
  | case5 bytes k b rest front clean noQuote c m hread =>
    rename_i ih
    intro n escaped h
    obtain ⟨start, whole, length, contents⟩ := split_of_escape front clean noQuote hread
    obtain ⟨k, flag, tail, rfl, rfl⟩ := closed_of_afterEscape h
    obtain ⟨raw, after, split, rfl, inner, -⟩ := ih tail
    refine ⟨start ++ raw, after, whole.trans ?_, ?_, (contents raw).1 inner, (contents raw).2.symm⟩
    · rw [split, List.append_assoc]
    · rw [List.length_append, length]

end Quotation

end PathFold.Json
