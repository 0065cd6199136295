import PathFold.Proofs.Acceptance
import PathFold.Proofs.Layout.Trail
import PathFold.Proofs.Reduction.Failures

/-! Truncation is never silent. Where a document is cut off inside its root, the run over what is
kept repeats the run over the document up to the cut; there it gives the end, with the containers
still open, if nothing but containers is cut open, and else it fails. -/

namespace PathFold

open PathFold.Json

variable {α : Type}

namespace Json

/-- Where a document is cut off: between two tokens, with what is kept after the first of them, or
inside a token, with what is kept of it. -/
inductive Cut where
  | between (kept : Bytes)
  | inside (kind : TokenKind) (kept : Bytes)
  deriving DecidableEq, Repr

namespace Cut

/-- The cut at the end of the kept bytes, among the tokens that come after an offset. -/
def of (kept : Bytes) (offset : Nat) : List Token → Cut
  | [] => .between (kept.drop offset)
  | token :: tokens =>
    if token.stop ≤ kept.length then of kept token.stop tokens
    else if kept.length ≤ token.start then .between (kept.drop offset)
    else .inside token.kind (kept.drop token.start)

/-- That a cut breaks nothing but containers: after a token it leaves a gap, which may end in an open
line comment, or such a gap after a separator; and inside a token it leaves a number of a number. -/
def Clean (comments : Bool) : Cut → Prop
  | .between kept => LeadTo comments (IsLastGap comments) kept
  | .inside kind kept => kind = .number ∧ IsNumeral kept

/-- That a cut breaks a comment or a token: after its first slash or inside its block a comment, and
anywhere inside it a token of which it leaves no number. -/
def Broken (comments : Bool) : Cut → Prop
  | .between kept => LeadTo comments (IsBrokenGap comments) kept
  | .inside kind kept => kind = .number → ¬ IsNumeral kept

theorem Clean.not_broken {comments : Bool} {cut : Cut} (h : cut.Clean comments) :
    ¬ cut.Broken comments := by
  cases cut with
  | between kept => exact LeadTo.not_broken h
  | inside kind kept => exact fun broken => broken h.1 h.2

end Cut

/-- How many containers are open after the tokens that end before a position. -/
def openAt (position depth : Nat) (tokens : List Token) : Nat :=
  ((tokens.takeWhile (·.stop ≤ position)).map (·.kind)).foldl TokenKind.depthAfter depth

theorem openAt_of_le {position depth : Nat} {token : Token} {tokens : List Token}
    (h : token.stop ≤ position) :
    openAt position depth (token :: tokens) =
      openAt position (token.kind.depthAfter depth) tokens := by
  simp [openAt, h]

theorem openAt_of_lt {position depth : Nat} {token : Token} {tokens : List Token}
    (h : position < token.stop) : openAt position depth (token :: tokens) = depth := by
  simp [openAt, Nat.not_le_of_lt h]

/-- After the last value of a document nothing follows. -/
theorem Writes.eq_afterValue {stage next : Stage} {written : Bytes} {lexeme : Lexeme}
    (h : Writes stage written lexeme next) (inside : 0 < stage.kinds.length)
    (outside : next.kinds = []) : next = .afterValue [] := by
  cases h with
  | opening => cases outside
  | closing | scalar => exact congrArg Stage.afterValue outside
  | name =>
    have none : _ = [] := outside
    subst none
    cases inside

namespace Tokenizer

/-- Outside the root, after it has been closed, no token is given. -/
theorem Completes.eq_nil {t final : Tokenizer} {tokens : List Token} (h : t.Completes tokens final)
    (closed : t.stage = .afterValue []) : tokens = [] := by
  cases h with
  | last => rfl
  | more call =>
    obtain ⟨passed, ready, written, -, came, took⟩ := took_of_next call
    have lead := came.lead
    have writes := took.writes
    rw [closed] at lead
    generalize ready.stage = before at lead writes
    cases lead with
    | gap =>
      obtain ⟨kind, outer, kinds, -⟩ := writes.of_afterValue
      cases kinds

/-- That a run finds no more than `maxDepth` containers open up to where it stops: at the end, inside
as many, or at an error. -/
inductive Stops (maxDepth : Nat) : Tokenizer → Option Nat → Prop
  | cut {t u} : t.next = (.ok none, u) → 0 < u.depth → Stops maxDepth t (some u.depth)
  | failed {t} : Fails t.next → Stops maxDepth t none
  | more {t u token found} : t.next = (.ok (some token), u) → u.depth ≤ maxDepth →
      Stops maxDepth u found → Stops maxDepth t found

/-- How a scan ends over a run that stops so. -/
def Stopped (found : Option Nat) (error : Option Error) : Prop :=
  match found with
  | some depth => error = some (.truncatedDocument depth)
  | none => ∃ fault, error = some (.malformed fault)

theorem Stops.stopped {maxDepth : Nat} {t : Tokenizer} {found : Option Nat}
    (h : t.Stops maxDepth found) : Stopped found
      (verdict maxDepth t.feed.failure t.place (t.feed.pulls.map (·.token.sight))) := by
  induction h with
  | @cut t u call inside =>
    obtain ⟨depth, -⟩ := depth_of_end call
    rw [depth] at inside
    rw [feed_of_end call, depth]
    exact if_pos (.inr inside)
  | @failed t fails =>
    obtain ⟨error, u, call⟩ := fails
    rw [feed_of_error call]
    exact ⟨error, rfl⟩
  | @more t u token found call shallow _ ih =>
    obtain ⟨admits, moved⟩ := admits_of_next call
    have room : t.place.fault? maxDepth token.sight = none := by
      cases fault : t.place.fault? maxDepth token.sight with
      | none => rfl
      | some error =>
        obtain ⟨⟨kind, opening⟩, full, -⟩ := admits.overflow fault
        have depth : u.depth = token.kind.depthAfter t.depth := congrArg Place.depth moved
        have opening : token.kind = .opening kind := opening
        have full : t.depth = maxDepth := full
        rw [opening, full] at depth
        exact absurd shallow (Nat.not_le_of_lt (depth ▸ Nat.lt_succ_self _))
    have after : t.place.after token.sight.kind = u.place := moved.symm
    rw [feed_of_token call, List.map_cons, verdict, room, Option.none_or, after]
    exact ih

/-- That a run over kept bytes stops as their cut says: at the end, inside so many containers, if the
cut is clean, and at an error if it breaks something. -/
def StopsAs (maxDepth : Nat) (comments : Bool) (cut : Cut) (depth : Nat) (t : Tokenizer) : Prop :=
  (cut.Clean comments ∧ t.Stops maxDepth (some depth)) ∨
    (cut.Broken comments ∧ t.Stops maxDepth none)

/-- What is left of a number is the last token, and the end comes after it. -/
theorem stops_of_number {maxDepth : Nat} {t : Tokenizer} {part : Bytes} {kinds : List ContainerKind}
    (gives : Gives t.next ⟨.number, part⟩ (.afterValue kinds) []) (inside : 0 < kinds.length)
    (shallow : kinds.length ≤ maxDepth) : t.Stops maxDepth (some kinds.length) := by
  obtain ⟨token, u, call, -, stage, rest⟩ := gives
  have depth : u.depth = kinds.length := by
    rw [← length_stage, stage]
    rfl
  have lead : Lead u.options (IsGap u.options.comments) u.stage (u.cursor.rest ++ []) u.stage := by
    rw [rest]
    exact .gap .nil
  rcases next_of_cut_lead lead (by omega) with ⟨-, v, ends, same⟩ | ⟨broken, -⟩
  · rw [← depth, ← same]
    exact .more call (by omega) (.cut ends (by omega))
  · rw [rest] at broken
    exact (LeadTo.not_broken (.inl (.closed .nil)) broken).elim

section

variable {kept lost : Bytes} {t t' u final : Tokenizer} {token : Token} {tokens : List Token}
  {maxDepth : Nat}

/-- Past a token that is kept whole. -/
theorem Trails.stops_of_whole (h : t.Trails kept lost t') (call : t.next = (.ok (some token), u))
    (after : u.Completes tokens final) (whole : token.stop ≤ kept.length)
    (shallow : u.depth ≤ maxDepth)
    (later : ∀ u', u.Trails kept lost u' → u'.StopsAs maxDepth u.options.comments
      (Cut.of kept u.position tokens) (openAt kept.length u.depth tokens)) :
    t'.StopsAs maxDepth t.options.comments (Cut.of kept t.position (token :: tokens))
      (openAt kept.length t.depth (token :: tokens)) := by
  obtain ⟨passed, ready, written, -, came, took⟩ := took_of_next call
  obtain ⟨-, -, position⟩ := span_of_took came took
  have depth : u.depth = token.kind.depthAfter t.depth := depth_of_writes came.lead took.writes
  have options : u.options = t.options := took.options.trans came.options
  obtain ⟨token', u', call', trails⟩ := h.next_of_whole call after whole
  have shallow' : u'.depth ≤ maxDepth := by rwa [trails.depth]
  have stops := later u' trails
  rw [options, depth, position] at stops
  rw [Cut.of, if_pos whole, openAt_of_le whole]
  rcases stops with ⟨clean, stops⟩ | ⟨broken, stops⟩
  · exact .inl ⟨clean, .more call' shallow' stops⟩
  · exact .inr ⟨broken, .more call' shallow' stops⟩

/-- Up to a token that is not kept whole. -/
theorem Trails.stops_of_cut (h : t.Trails kept lost t') (call : t.next = (.ok (some token), u))
    (cutOff : kept.length < token.stop) (inside : 0 < t.depth) (shallow : t.depth ≤ maxDepth) :
    t'.StopsAs maxDepth t.options.comments (Cut.of kept t.position (token :: tokens))
      (openAt kept.length t.depth (token :: tokens)) := by
  rw [Cut.of, if_neg (Nat.not_le_of_lt cutOff), openAt_of_lt cutOff]
  by_cases before : kept.length ≤ token.start
  · rw [if_pos before]
    rcases h.next_of_before call before inside with ⟨clean, u', ends, depth⟩ | ⟨broken, fails⟩
    · rw [← depth] at inside ⊢
      exact .inl ⟨clean, .cut ends inside⟩
    · exact .inr ⟨broken, .failed fails⟩
  · rw [if_neg before]
    have depth : t'.stage.kinds.length = t.depth := t'.length_stage.trans h.depth
    rw [← depth] at inside shallow ⊢
    rcases h.next_of_inside call (Nat.lt_of_not_le before) cutOff with
      ⟨clean, gives⟩ | ⟨broken, fails⟩
    · exact .inl ⟨clean, stops_of_number gives inside shallow⟩
    · exact .inr ⟨fun number part => broken ⟨number, part⟩, .failed fails⟩

/-- The token after which the root is closed is the last one. -/
theorem Completes.eq_nil_of_closed (h : u.Completes tokens final)
    (call : t.next = (.ok (some token), u)) (inside : 0 < t.depth) (closed : u.depth = 0) :
    tokens = [] := by
  obtain ⟨passed, ready, written, -, came, took⟩ := took_of_next call
  have within : 0 < ready.stage.kinds.length := by rwa [came.lead.kinds, length_stage]
  have none : u.stage.kinds = [] := List.length_eq_zero_iff.1 (u.length_stage.trans closed)
  exact h.eq_nil (took.writes.eq_afterValue within none)

/-- Over the kept part of a document that is cut off inside its root, a run stops as the cut says. -/
theorem Completes.stops (h : t.Completes tokens final) (trails : t.Trails kept lost t')
    (outside : final.depth = 0) (inside : 0 < t.depth)
    (unclosed : ∀ token ∈ tokens.getLast?, kept.length < token.stop) (shallow : t.depth ≤ maxDepth)
    (bounded : ∀ pull ∈ t.feed.pulls, pull.depth ≤ maxDepth) :
    t'.StopsAs maxDepth t.options.comments (Cut.of kept t.position tokens)
      (openAt kept.length t.depth tokens) := by
  -- The induction follows the document; the run over the kept bytes trails it up to the cut.
  induction h generalizing t' with
  | last call =>
    obtain ⟨depth, -⟩ := depth_of_end call
    rw [outside] at depth
    exact absurd depth (Nat.ne_of_lt inside)
  | @more t u tokens final token call after ih =>
    rw [feed_of_token call, List.forall_mem_cons] at bounded
    obtain ⟨shallow', bounded⟩ := bounded
    by_cases whole : token.stop ≤ kept.length
    · have inside' : 0 < u.depth := by
        refine Nat.pos_of_ne_zero fun closed => ?_
        have last := after.eq_nil_of_closed call inside closed
        subst last
        exact absurd whole (Nat.not_le_of_lt (unclosed token rfl))
      have unclosed' : ∀ token ∈ tokens.getLast?, kept.length < token.stop := by
        intro last mem
        refine unclosed last ?_
        cases tokens with
        | nil => cases mem
        | cons => exact mem
      exact trails.stops_of_whole call after whole shallow' fun u' trails' =>
        ih trails' outside inside' unclosed' shallow' bounded
    · exact trails.stops_of_cut call (Nat.lt_of_not_le whole) inside shallow

end

/-- A run over the kept part of a document begins with the opener of its root, and stops as the cut
says. -/
theorem stops_of_root {o : Options} {kept lost : Bytes} {final : Tokenizer} {opener : Token}
    {tokens : List Token} {kind : ContainerKind} {maxDepth : Nat}
    (h : (start o (kept ++ lost)).Completes (opener :: tokens) final) (outside : final.depth = 0)
    (root : opener.kind = .opening kind) (opened : opener.stop ≤ kept.length)
    (unclosed : ∀ token ∈ tokens.getLast?, kept.length < token.stop)
    (bounded : ∀ pull ∈ (start o (kept ++ lost)).feed.pulls, pull.depth ≤ maxDepth) :
    (start o kept).StopsAs maxDepth o.comments (Cut.of kept 0 (opener :: tokens))
      (openAt kept.length 0 (opener :: tokens)) := by
  have trails : (start o (kept ++ lost)).Trails kept lost (start o kept) :=
    ⟨rfl, rfl, rfl, rfl, Nat.zero_le _⟩
  cases h with
  | @more _ u _ _ _ call after =>
    rw [feed_of_token call, List.forall_mem_cons] at bounded
    obtain ⟨shallow, bounded⟩ := bounded
    have depth : u.depth = opener.kind.depthAfter 0 :=
      congrArg Place.depth (admits_of_next call).2
    have inside : 0 < u.depth := by
      rw [depth, root]
      exact Nat.one_pos
    exact trails.stops_of_whole call after opened shallow fun u' trails' =>
      after.stops trails' outside inside unclosed shallow bounded

end Tokenizer

end Json

namespace Reducer

/-- Truncation is never silent. Take a document that the tokenizer accepts, whose root is a container
and which nests no deeper than the settings allow, and keep of it some bytes with the opener of the
root and without its closer. Reducing them is an error: the document is cut off inside as many
containers as are open at the cut if the cut is clean, and malformed if it breaks something, which
is so for all other cuts. -/
theorem processWith_cut_off {config : Config} {initial : α} {rules : List (Rule α)}
    {reducer : Reducer α} (built : build config initial rules = .ok reducer) (kept lost : Bytes)
    {final : Tokenizer} {opener closer : Token} {inner : List Token} {kind : ContainerKind}
    (ends : (Tokenizer.start config.options (kept ++ lost)).run.getLast? = some (.ok none, final))
    (outside : final.depth = 0)
    (tokens : (Tokenizer.start config.options (kept ++ lost)).feed.pulls.map (·.token) =
      opener :: inner)
    (shallow : ∀ pull ∈ (Tokenizer.start config.options (kept ++ lost)).feed.pulls,
      pull.depth ≤ config.maxDepth)
    (root : opener.kind = .opening kind) (last : inner.getLast? = some closer)
    (opened : opener.stop ≤ kept.length) (unclosed : kept.length < closer.stop) (aggregate : α) :
    let cut := Cut.of kept 0 (opener :: inner)
    let result := reducer.processWith kept aggregate
    (∀ total, result ≠ .ok total) ∧
      (result = .error (.truncatedDocument (openAt kept.length 0 (opener :: inner))) ↔
        cut.Clean config.options.comments) ∧
      ((∃ error, result = .error (.malformed error)) ↔ cut.Broken config.options.comments) ∧
      (cut.Broken config.options.comments ↔ ¬ cut.Clean config.options.comments) := by
  intro cut result
  have completes := Tokenizer.completes_of_run ends
  rw [tokens] at completes
  have notKept : ∀ token ∈ inner.getLast?, kept.length < token.stop := by
    rw [last]
    rintro _ ⟨⟩
    exact unclosed
  have scanned : errorOf result = _ :=
    errorOf_processTokens built (reducer.feedOf kept) aggregate
  obtain ⟨set, -, -, rfl⟩ := build_eq_ok built
  rcases Tokenizer.stops_of_root completes outside root opened notKept shallow with
    ⟨clean, stops⟩ | ⟨broken, stops⟩
  · have found : result = .error (.truncatedDocument _) :=
      errorOf_eq_some_iff.1 (scanned.trans stops.stopped)
    rw [found]
    refine ⟨fun _ => by rintro ⟨⟩, iff_of_true rfl clean, iff_of_false ?_ clean.not_broken,
      iff_of_false clean.not_broken fun unclean => unclean clean⟩
    rintro ⟨error, ⟨⟩⟩
  · obtain ⟨error, same⟩ := stops.stopped
    have found : result = .error (.malformed error) :=
      errorOf_eq_some_iff.1 (scanned.trans same)
    have unclean : ¬ cut.Clean config.options.comments := fun clean => clean.not_broken broken
    rw [found]
    refine ⟨fun _ => by rintro ⟨⟩, iff_of_false ?_ unclean, iff_of_true ⟨error, rfl⟩ broken,
      iff_of_true broken unclean⟩
    rintro ⟨⟩

/-- The document `[[-10]]`, cut off after its minus and after the digit that follows. -/
theorem processWith_cut_off_in_number :
    ∃ reducer : Reducer Nat, build .strict 0 [] = .ok reducer ∧
      reducer.processWith [0x5B, 0x5B, 0x2D, 0x31] 7 = .error (.truncatedDocument 2) ∧
      ∃ error, reducer.processWith [0x5B, 0x5B, 0x2D] 7 = .error (.malformed error) := by
  have digits : IsDigits [0x31] ∧ IsDigits [0x31, 0x30] := by simp [IsDigits, IsDigit]
  have one : IsNumeral [0x2D, 0x31] :=
    ⟨[0x2D], [0x31], [], [], .inr rfl, .inr ⟨digits.1, by simp⟩, .inl rfl, .inl rfl, rfl⟩
  have ten : IsNumeral [0x2D, 0x31, 0x30] :=
    ⟨[0x2D], [0x31, 0x30], [], [], .inr rfl, .inr ⟨digits.2, by simp⟩, .inl rfl, .inl rfl, rfl⟩
  have inner : IsValue .strict (.container .array (.cons none (.scalar ⟨.number, _⟩) .nil)) _ :=
    .filled (.element .nil (.scalar (.number ten))) .nil (.plain .nil)
  have written : IsDocument .strict _ [0x5B, 0x5B, 0x2D, 0x31, 0x30, 0x5D, 0x5D] :=
    .intro .nil (.filled (.element .nil inner) .nil (.plain .nil)) (.closed .nil)
  obtain ⟨⟨final, ends, outside⟩, -⟩ := run_of_document written (by decide)
  have feed : (Tokenizer.start .strict [0x5B, 0x5B, 0x2D, 0x31, 0x30, 0x5D, 0x5D]).feed.pulls =
      [⟨⟨.opening .array, [0x5B], 0, 1, false⟩, 1⟩, ⟨⟨.opening .array, [0x5B], 1, 2, false⟩, 2⟩,
        ⟨⟨.number, [0x2D, 0x31, 0x30], 2, 5, false⟩, 2⟩,
        ⟨⟨.closing .array, [0x5D], 5, 6, false⟩, 1⟩,
        ⟨⟨.closing .array, [0x5D], 6, 7, false⟩, 0⟩] := by decide +kernel
  have tokens := congrArg (List.map Pull.token) feed
  have shallow : ∀ pull ∈ (Tokenizer.start .strict
      [0x5B, 0x5B, 0x2D, 0x31, 0x30, 0x5D, 0x5D]).feed.pulls, pull.depth ≤ Path.maxDepth := by
    rw [feed]
    decide
  have built : build .strict 0 [] = .ok _ := rfl
  have afterDigit := processWith_cut_off built [0x5B, 0x5B, 0x2D, 0x31] [0x30, 0x5D, 0x5D] ends
    outside tokens shallow rfl rfl (by decide) (by decide) 7
  have afterMinus := processWith_cut_off built [0x5B, 0x5B, 0x2D] [0x31, 0x30, 0x5D, 0x5D] ends
    outside tokens shallow rfl rfl (by decide) (by decide) 7
  have noNumeral : ¬ IsNumeral [0x2D] := by
    intro minus
    have read := Numeral.read_append minus noNumeralAhead_nil
    have refused : Numeral.read [0x2D] = .error ⟨.invalidNumber, 1⟩ := rfl
    cases refused.symm.trans read
  exact ⟨_, built, afterDigit.2.1.2 ⟨rfl, one⟩, afterMinus.2.2.1.2 fun _ => noNumeral⟩

end Reducer

end PathFold
