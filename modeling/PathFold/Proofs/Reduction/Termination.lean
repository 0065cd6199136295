import PathFold.Proofs.Safety.Calls
import PathFold.Reducer.Basic

/-! That reading comes to an end. Every call of the tokenizer returns, and one that gives a token takes
at least a byte. So a document has no more tokens than bytes, and whoever asks for them until there
are no more does not ask much more often. -/

namespace PathFold

open PathFold.Json

namespace Json.Tokenizer

variable {t : Tokenizer}

theorem position_next_lt {token : Token} (h : t.next.1 = .ok (some token)) :
    t.position < t.next.2.position := by
  obtain ⟨n, -, cursor, -, moves⟩ := advances_next t
  have some := moves token h
  simp only [position, cursor, Cursor.advance_pos]
  omega

/-- Each token that is given has moved the cursor on. -/
theorem length_given_add_position_le (t : Tokenizer) (n : Nat) :
    (t.given n).length + t.position ≤ (t.after n).position := by
  induction n with
  | zero => exact Nat.le_of_eq (Nat.zero_add _)
  | succ n ih =>
    rw [given, List.length_append, after]
    cases answer : tokenOf (t.after n).next.1 with
    | none => exact Nat.le_trans ih (position_le_next _)
    | some token =>
      have further := position_next_lt (eq_of_tokenOf answer)
      simp only [Option.toList_some, List.length_singleton]
      omega

theorem length_given_le (o : Options) (input : Bytes) (n : Nat) :
    ((start o input).given n).length ≤ input.length :=
  Nat.le_trans (length_given_add_position_le (start o input) n) (position_after_le o input n)

/-- Of some calls either all give tokens, or one is the first that does not. -/
theorem tokens_or_first (t : Tokenizer) (n : Nat) :
    (∀ k < n, ∃ token, (t.after k).next.1 = .ok (some token)) ∨
    ∃ m < n, (∀ k < m, ∃ token, (t.after k).next.1 = .ok (some token)) ∧
      ∀ token, (t.after m).next.1 ≠ .ok (some token) := by
  induction n with
  | zero => exact .inl fun k less => absurd less (Nat.not_lt_zero k)
  | succ n ih =>
    rcases ih with tokens | ⟨m, less, first⟩
    · cases answer : tokenOf (t.after n).next.1 with
      | none =>
        refine .inr ⟨n, Nat.lt_succ_self n, tokens, fun token given => ?_⟩
        rw [given] at answer
        cases answer
      | some token =>
        refine .inl fun k less => ?_
        rcases Nat.lt_succ_iff_lt_or_eq.1 less with less | rfl
        · exact tokens k less
        · exact ⟨token, eq_of_tokenOf answer⟩
    · exact .inr ⟨m, Nat.lt_succ_of_lt less, first⟩

theorem length_given_of_tokens {n : Nat}
    (tokens : ∀ k < n, ∃ token, (t.after k).next.1 = .ok (some token)) :
    (t.given n).length = n := by
  induction n with
  | zero => rfl
  | succ n ih =>
    obtain ⟨token, answer⟩ := tokens n (Nat.lt_succ_self n)
    have before := ih fun k less => tokens k (Nat.lt_succ_of_lt less)
    rw [given, List.length_append, before, answer]
    rfl

/-- There cannot be a token with each call, so one of the first calls gives none. -/
theorem exists_first_without_token (o : Options) (input : Bytes) :
    ∃ m ≤ input.length, (∀ k < m, ∃ token, ((start o input).after k).next.1 = .ok (some token)) ∧
      ∀ token, ((start o input).after m).next.1 ≠ .ok (some token) := by
  rcases (start o input).tokens_or_first (input.length + 1) with tokens | ⟨m, less, first⟩
  · have count := length_given_of_tokens tokens
    have bound := length_given_le o input (input.length + 1)
    omega
  · exact ⟨m, Nat.le_of_lt_succ less, first⟩

/-- After the end has been given the tokenizer stands still. -/
theorem after_of_end {m n : Nat} (h : (t.after m).next.1 = .ok none) (less : m < n) :
    t.after n = t.after (m + 1) := by
  induction less with
  | refl => rfl
  | step _ ih =>
    have still := congrArg Prod.snd (next_of_end (next_after h))
    rw [after, ih]
    exact still

end Json.Tokenizer

variable {α : Type}

/-- A walk that asks the tokenizer for one token after the other, with every step of a call checked.
It comes to nothing if a call fails or if it takes more calls than these. -/
def Walk.drive (set : RuleSet α) : Nat → Tokenizer → Walk α → Option (Outcome α)
  | 0, _, _ => none
  | calls + 1, t, walk =>
    match Checked.next t with
    | none => none
    | some (.error error, _) => some ⟨walk.finish (some error), [], 1⟩
    | some (.ok none, _) => some ⟨walk.finish none, [], 1⟩
    | some (.ok (some token), u) =>
      match walk.step set ⟨token, u.depth⟩ with
      | .error error => some ⟨.error error, [], 1⟩
      | .ok (next, events) =>
        (drive set calls u next).map fun rest =>
          ⟨rest.result, events ++ rest.events, rest.pulled + 1⟩

/-- One call for each byte that is left, and one more, are enough. -/
theorem Walk.drive_eq (set : RuleSet α) {calls : Nat} {t : Tokenizer} (inRange : t.InRange)
    (enough : t.left < calls) (walk : Walk α) :
    drive set calls t walk = some (walk.run set t.feed.failure t.feed.pulls) := by
  induction calls generalizing t walk with
  | zero => exact absurd enough (Nat.not_lt_zero _)
  | succ calls ih =>
    rw [drive, Checked.next_eq inRange]
    cases call : t.next with
    | mk answer u =>
      cases answer with
      | error error =>
        rw [Tokenizer.feed_of_error call]
        rfl
      | ok given =>
        cases given with
        | none =>
          rw [Tokenizer.feed_of_end call]
          rfl
        | some token =>
          have fewer : u.left < t.left := by
            have fewer := Tokenizer.left_next_lt (congrArg Prod.fst call)
            rwa [call] at fewer
          have inRange : u.InRange := by
            have next := inRange.next
            rwa [call] at next
          rw [Tokenizer.feed_of_token call, run]
          dsimp only
          cases walk.step set ⟨token, u.depth⟩ with
          | error error => rfl
          | ok result =>
            have rest := ih inRange (by omega) result.1
            exact congrArg (Option.map _) rest

/-- Every call returns, whatever calls came before, since each of its loops leaves less to read with
every turn. It moves on with a token and never back, so there are no more tokens than bytes, and of
the first calls, one more than there are bytes, one gives the end or an error. The end is given for
good. The loop over the tokens ends as well. -/
theorem reading_ends (o : Options) (input : Bytes) :
    let t := (Tokenizer.start o input).after
    (∀ n, Checked.next (t n) = some (t n).next ∧
      (t n).position ≤ (t n).next.2.position ∧
      (∀ token, (t n).next.1 = .ok (some token) → (t n).position < (t n).next.2.position) ∧
      ((Tokenizer.start o input).given n).length ≤ input.length ∧
      ((t n).next.1 = .ok none → ∀ m > n, t m = t (n + 1) ∧ (t m).next = (.ok none, t m))) ∧
    (∃ m ≤ input.length, (∀ k < m, ∃ token, (t k).next.1 = .ok (some token)) ∧
      ∀ token, (t m).next.1 ≠ .ok (some token)) ∧
    ∀ (α : Type) (reducer : Reducer α) (aggregate : α),
      Walk.drive reducer.rules (input.length + 1)
          (Tokenizer.start reducer.config.options input)
          (Walk.start reducer.config.maxDepth aggregate) =
        some (reducer.observeDocument input aggregate) := by
  intro t
  refine ⟨fun n => ⟨?_, Tokenizer.position_le_next _, fun _ => Tokenizer.position_next_lt,
    Tokenizer.length_given_le o input n, fun ended m less => ?_⟩,
    Tokenizer.exists_first_without_token o input, fun α reducer aggregate => ?_⟩
  · exact Checked.next_eq ((Tokenizer.InRange.start o input).after n)
  · have still : t m = t (n + 1) := Tokenizer.after_of_end ended less
    rw [still]
    exact ⟨rfl, Tokenizer.next_of_end (Tokenizer.next_after ended)⟩
  · exact Walk.drive_eq reducer.rules (.start _ input) (Nat.lt_succ_self _) _

/-- The document `[1,`, whose third token does not come: three calls are made. -/
example : (Walk.drive ⟨.empty, [], []⟩ 4 (Tokenizer.start .strict [0x5B, 0x31, 0x2C])
    (Walk.start 4 0)).map (·.pulled) = some 3 := by
  decide +kernel

end PathFold
