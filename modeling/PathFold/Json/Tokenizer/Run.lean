import PathFold.Json.Tokenizer.Progress

/-! A run of the tokenizer: its calls up to the first one that gives no token. Every token takes at
least one byte, so a run ends. Calls may also go on, counted one by one whatever they give. -/

namespace PathFold.Json.Tokenizer

/-- The calls up to and including the first that gives no token, each with the tokenizer after it. -/
def run (t : Tokenizer) : List (Answer × Tokenizer) :=
  match _next : t.next with
  | (.ok (some token), u) => (.ok (some token), u) :: u.run
  | (answer, u) => [(answer, u)]
termination_by t.left
decreasing_by
  have := left_next_lt (by rw [_next])
  rwa [_next] at this

/-- The tokenizer after a number of calls, whatever they give. -/
def after (t : Tokenizer) : Nat → Tokenizer
  | 0 => t
  | n + 1 => (t.after n).next.2

/-- The token that a call gives, if it gives one. -/
def tokenOf : Answer → Option Token
  | .ok token => token
  | .error _ => none

theorem eq_of_tokenOf {answer : Answer} {token : Token} (h : tokenOf answer = some token) :
    answer = .ok (some token) := by
  cases answer with
  | ok given => exact congrArg Except.ok h
  | error => cases h

/-- A step that gives a token. -/
theorem step_of_tokenOf {step : Answer × Tokenizer} {token : Token}
    (h : tokenOf step.1 = some token) : step = (.ok (some token), step.2) :=
  Prod.ext (eq_of_tokenOf h) rfl

/-- The tokens that a number of calls give, whatever the others give. -/
def given (t : Tokenizer) : Nat → List Token
  | 0 => []
  | n + 1 => t.given n ++ (tokenOf (t.after n).next.1).toList

/-- A call after some others, with the tokenizer after it. -/
theorem next_after {t : Tokenizer} {n : Nat} {answer : Answer}
    (h : (t.after n).next.1 = answer) : (t.after n).next = (answer, t.after (n + 1)) :=
  Prod.ext h rfl

/-- What the calls of a run give to a reader of tokens. -/
def feedOf : List (Answer × Tokenizer) → Feed
  | [] => ⟨[], none⟩
  | (.ok (some token), t) :: steps =>
    let feed := feedOf steps
    ⟨⟨token, t.depth⟩ :: feed.pulls, feed.failure⟩
  | (.ok none, _) :: _ => ⟨[], none⟩
  | (.error e, _) :: _ => ⟨[], some e⟩

/-- The tokens of the rest of the document, with the error that cuts them short if there is one. -/
def feed (t : Tokenizer) : Feed := feedOf t.run

/-- A run begins with the first call. -/
theorem run_of_token {t u : Tokenizer} {token : Token} (h : t.next = (.ok (some token), u)) :
    t.run = (.ok (some token), u) :: u.run := by
  rw [run]
  split
  · rename_i h'
    rw [h] at h'
    cases h'
    rfl
  · rename_i hno h'
    rw [h] at h'
    cases h'
    exact (hno token rfl).elim

/-- A run ends with the first call that gives no token. -/
theorem run_of_no_token {t : Tokenizer} (h : ∀ token, t.next.1 ≠ .ok (some token)) :
    t.run = [t.next] := by
  rw [run]
  split
  · rename_i h'
    exact absurd (by rw [h']) (h _)
  · rename_i h'
    rw [h']

theorem run_ne_nil (t : Tokenizer) : t.run ≠ [] := by
  rw [run]
  split <;> simp

/-- Each step of a run is a call. -/
theorem exists_next_of_mem_run {t : Tokenizer} {step : Answer × Tokenizer} (h : step ∈ t.run) :
    ∃ u : Tokenizer, u.next = step := by
  induction t using run.induct with
  | case1 t token u call ih =>
    rw [run_of_token call] at h
    rcases List.mem_cons.1 h with rfl | later
    · exact ⟨t, call⟩
    · exact ih later
  | case2 t answer u other call =>
    rw [run_of_no_token (by simpa [call] using other), List.mem_singleton] at h
    exact ⟨t, h.symm⟩

theorem input_after (t : Tokenizer) (n : Nat) : (t.after n).cursor.input = t.cursor.input := by
  induction n with
  | zero => rfl
  | succ n ih => exact (input_next _).trans ih

theorem position_after_mono (t : Tokenizer) {m n : Nat} (le : m ≤ n) :
    (t.after m).position ≤ (t.after n).position := by
  induction le with
  | refl => exact Nat.le_refl _
  | step _ ih => exact Nat.le_trans ih (position_le_next _)

theorem position_after_le (o : Options) (input : Bytes) (n : Nat) :
    ((start o input).after n).position ≤ input.length := by
  induction n with
  | zero => exact Nat.zero_le _
  | succ n ih =>
    have same : ((start o input).after n).cursor.input = input := input_after _ n
    have le := position_next_le (t := (start o input).after n) (by rwa [same])
    rwa [same] at le

theorem pulls_of_no_token {t : Tokenizer} (h : ∀ token, t.next.1 ≠ .ok (some token)) :
    t.feed.pulls = [] := by
  rw [feed, run_of_no_token h]
  generalize t.next = step at h
  match step with
  | (.ok (some token), _) => exact (h token rfl).elim
  | (.ok none, _) | (.error _, _) => rfl

theorem feed_of_token {t u : Tokenizer} {token : Token} (h : t.next = (.ok (some token), u)) :
    t.feed = ⟨⟨token, u.depth⟩ :: u.feed.pulls, u.feed.failure⟩ := by
  rw [feed, run_of_token h]
  rfl

theorem feed_of_end {t u : Tokenizer} (h : t.next = (.ok none, u)) : t.feed = ⟨[], none⟩ := by
  rw [feed, run_of_no_token (by simp [h]), h]
  rfl

theorem feed_of_error {t u : Tokenizer} {e : ParseError} (h : t.next = (.error e, u)) :
    t.feed = ⟨[], some e⟩ := by
  rw [feed, run_of_no_token (by simp [h]), h]
  rfl

theorem after_succ (t : Tokenizer) (n : Nat) : t.after (n + 1) = t.next.2.after n := by
  induction n with
  | zero => rfl
  | succ n ih => exact congrArg (fun u : Tokenizer => u.next.2) ih

/-- The tokens of a feed are what the first calls give, one after the other. -/
theorem next_of_pull {t : Tokenizer} {n : Nat} {pull : Pull} (h : t.feed.pulls[n]? = some pull) :
    (t.after n).next.1 = .ok (some pull.token) := by
  induction t using run.induct generalizing n with
  | case1 t token u call ih =>
    rw [feed_of_token call] at h
    cases n with
    | zero =>
      cases h
      exact congrArg Prod.fst call
    | succ n =>
      rw [after_succ, call]
      exact ih h
  | case2 t answer u other call =>
    rw [pulls_of_no_token (by simpa [call] using other)] at h
    cases h

theorem next_of_failure {t : Tokenizer} {error : ParseError} (h : t.feed.failure = some error) :
    (t.after t.feed.pulls.length).next.1 = .error error := by
  induction t using run.induct with
  | case1 t token u call ih =>
    rw [feed_of_token call] at h ⊢
    rw [List.length_cons, after_succ, call]
    exact ih h
  | case2 t answer u other call =>
    rw [pulls_of_no_token (by simpa [call] using other), List.length_nil, after, call]
    match answer with
    | .ok (some token) => exact (other token rfl).elim
    | .ok none =>
      rw [feed_of_end call] at h
      cases h
    | .error refused =>
      rw [feed_of_error call] at h
      cases h
      rfl

/-- The document `[1,]`, whose comma has no element after it. -/
example : (start .lenient [0x5B, 0x31, 0x2C, 0x5D]).feed.pulls.map (·.token.kind) =
    [.opening .array, .number, .closing .array] := by decide +kernel
example : (start .strict [0x5B, 0x31, 0x2C, 0x5D]).feed.failure =
    some ⟨.unexpectedCharacter, 3⟩ := by decide +kernel

end PathFold.Json.Tokenizer
