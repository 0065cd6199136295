import PathFold.Json.Tokenizer

/-! What reading at the cursor can come to. Which lexemes the grammar accepts there is said once, and
reading either takes one of them or refuses. -/

namespace PathFold.Json

namespace Expect

def takesValue : Expect → Bool
  | .value | .valueOrEnd => true
  | _ => false

def takesName : Expect → Bool
  | .key | .keyOrEnd => true
  | _ => false

def takesCloser : Expect → ContainerKind → Bool
  | .valueOrEnd, .array | .keyOrEnd, .object | .commaOrEnd, _ => true
  | _, _ => false

end Expect

namespace Tokenizer

/-- Reading at the cursor comes to the end, to a lexeme that the grammar accepts, or to a refusal. -/
inductive Reads (t : Tokenizer) : Answer × Tokenizer → Prop
  | finish : t.cursor.rest = [] → t.Reads t.readEnd
  | closing {kind tail} : t.expect.takesCloser kind → t.cursor.rest = kind.closer :: tail →
      t.Reads (t.readClosing kind)
  | name {tail} : t.expect.takesName → t.cursor.rest = 0x22 :: tail → t.Reads t.readName
  | value {b tail} : t.expect.takesValue → t.cursor.rest = b :: tail → t.Reads (t.readValue b)
  | refused (fault : Fault) : t.cursor.rest ≠ [] → t.Reads (t.refuse fault)

theorem reads_readLexeme (t : Tokenizer) : t.Reads t.readLexeme := by
  unfold readLexeme
  cases peek : t.cursor.peek with
  | none => exact .finish (List.head?_eq_none_iff.1 peek)
  | some b =>
    have ahead := Cursor.rest_of_peek peek
    have more : t.cursor.rest ≠ [] := by
      rw [ahead]
      exact List.cons_ne_nil _ _
    have closing (kind : ContainerKind) (same : b = kind.closer)
        (takes : t.expect.takesCloser kind) : t.Reads (t.readClosing kind) :=
      .closing takes (same ▸ ahead)
    have name (same : b = 0x22) (takes : t.expect.takesName) : t.Reads t.readName :=
      .name takes (same ▸ ahead)
    dsimp only
    cases expect : t.expect with
    | done | colon => exact .refused _ more
    | value => exact .value (by rw [expect]; rfl) ahead
    | valueOrEnd =>
      dsimp only
      split
      · rename_i close
        exact closing .array close (by rw [expect]; rfl)
      · exact .value (by rw [expect]; rfl) ahead
    | keyOrEnd =>
      dsimp only
      split
      · rename_i close
        exact closing .object close (by rw [expect]; rfl)
      · split
        · rename_i quote
          exact name quote (by rw [expect]; rfl)
        · exact .refused _ more
    | key =>
      dsimp only
      split
      · rename_i quote
        exact name quote (by rw [expect]; rfl)
      · exact .refused _ more
    | commaOrEnd =>
      dsimp only
      split
      · rename_i close
        exact closing .object close (by rw [expect]; rfl)
      · split
        · rename_i close
          exact closing .array close (by rw [expect]; rfl)
        · exact .refused _ more

end Tokenizer

end PathFold.Json
