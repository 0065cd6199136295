import PathFold.Proofs.Layout.Faults
import PathFold.Proofs.Reduction.Verdict

/-! How reducing a document can fail. The tokenizer gives no token that may not come where it does,
but for a container that there is no room for on the path; so a document is refused for its nesting,
or fails as the tokenizer does, or is cut off where the tokenizer has come to its end. -/

namespace PathFold

open PathFold.Json

variable {α : Type}

/-- That a token may come at a place if there is room for it: a value after a name, and a closer
only inside a container. -/
structure Place.Admits (place : Place) (kind : TokenKind) : Prop where
  value : place.named → (∃ container, kind = .opening container) ∨ kind.scalarKind?.isSome
  closer : ∀ container, kind = .closing container → 0 < place.depth

namespace Place

theorem Admits.not_named {place : Place} {kind : TokenKind} (h : place.Admits kind)
    (noOpening : ∀ container, kind ≠ .opening container) (noScalar : kind.scalarKind? = none) :
    ¬ place.named := by
  intro named
  rcases h.value named with ⟨container, opens⟩ | scalar
  · exact noOpening container opens
  · rw [noScalar] at scalar
    cases scalar

/-- All that can be wrong with a token that may come at a place is that there is no room for it. -/
theorem Admits.overflow {place : Place} {sight : Sight} (h : place.Admits sight.kind)
    {maxDepth : Nat} {error : Error} (fault : place.fault? maxDepth sight = some error) :
    (∃ container, sight.kind = .opening container) ∧ place.depth = maxDepth ∧
      error = .stackOverflow maxDepth := by
  obtain ⟨kind, start⟩ := sight
  cases kind with
  | opening container =>
    by_cases full : place.depth = maxDepth
    · rw [fault?, if_pos full] at fault
      cases fault
      exact ⟨⟨container, rfl⟩, full, rfl⟩
    · rw [fault?, if_neg full] at fault
      cases fault
  | closing container =>
    have plain := h.not_named (by rintro _ ⟨⟩) rfl
    have inside : place.depth ≠ 0 := Nat.ne_of_gt (h.closer container rfl)
    rw [fault?, if_neg plain, if_neg inside] at fault
    cases fault
  | propertyName =>
    have plain := h.not_named (by rintro _ ⟨⟩) rfl
    cases fault.symm.trans (if_neg plain)
  | string | number | boolean | null => cases fault

/-- A token that there is room for leaves no more open than there may be. -/
theorem depth_after_le {place : Place} {sight : Sight} {maxDepth : Nat}
    (h : place.fault? maxDepth sight = none) (shallow : place.depth ≤ maxDepth) :
    (place.after sight.kind).depth ≤ maxDepth := by
  obtain ⟨kind, start⟩ := sight
  cases kind with
  | opening container =>
    have room : place.depth ≠ maxDepth := by
      intro full
      rw [fault?, if_pos full] at h
      cases h
    exact Nat.lt_of_le_of_ne shallow room
  | closing => exact Nat.le_trans (Nat.sub_le _ _) shallow
  | propertyName | string | number | boolean | null => exact shallow

end Place

/-- A closer comes only inside a container. -/
theorem Json.Writes.inside_of_closing {ready next : Stage} {written : Bytes} {lexeme : Lexeme}
    (h : Writes ready written lexeme next) {container : ContainerKind}
    (closing : lexeme.kind = .closing container) : 0 < ready.kinds.length := by
  cases h with
  | closing => exact Nat.succ_pos _
  | opening | name => cases closing
  | scalar _ scalar => cases scalar <;> cases closing

namespace Json.Tokenizer

/-- The place in a scan of its tokens that a tokenizer has come to. -/
def place (t : Tokenizer) : Place := ⟨t.depth, t.expect = .colon⟩

/-- What a tokenizer gives may come at its place, and takes it to the place after it. -/
theorem admits_of_next {t u : Tokenizer} {token : Token} (h : t.next = (.ok (some token), u)) :
    t.place.Admits token.kind ∧ u.place = t.place.after token.kind := by
  obtain ⟨passed, ready, written, -, came, took⟩ := took_of_next h
  refine ⟨⟨fun named => ?_, fun container closing => ?_⟩, ?_⟩
  · exact came.lead.isValue took.writes (of_decide_eq_true named)
  · have inside := took.writes.inside_of_closing closing
    rwa [came.lead.kinds, length_stage] at inside
  · have depth : u.depth = token.kind.depthAfter t.depth := depth_of_writes came.lead took.writes
    have named : u.expect = .colon ↔ token.kind = .propertyName := took.writes.colon_iff
    simp only [place, Place.after, depth, named]

/-- At the end as many containers are open as before it, and more than none after a name. -/
theorem depth_of_end {t u : Tokenizer} (h : t.next = (.ok none, u)) :
    u.depth = t.depth ∧ (t.expect = .colon → 0 < t.depth) := by
  obtain ⟨lead, whole⟩ := lead_of_next h
  have depth : u.depth = t.depth := by rw [← length_stage, ← length_stage, lead.kinds]
  refine ⟨depth, fun colon => Nat.pos_of_ne_zero fun outside => ?_⟩
  have done := whole (depth.trans outside)
  have expect : u.stage.expect = .done := done
  have asks : t.stage.expect = .colon := colon
  generalize t.stage = before, u.stage = after, t.cursor.rest = passed at lead expect asks
  cases lead with
  | gap =>
    rw [expect] at asks
    cases asks
  | colon => cases expect
  | comma => cases asks

/-- How reducing what a tokenizer gives can end, with an error or without. -/
inductive Ends (maxDepth : Nat) (t : Tokenizer) : Option Error → Prop
  | overflow : t.Ends maxDepth (some (.stackOverflow maxDepth))
  | refused {error u depth} : t.run.getLast? = some (.error error, u) → depth < Nesting.maxDepth →
      error.fault.Native depth → t.Ends maxDepth (some (.malformed error))
  | cut {u} : t.run.getLast? = some (.ok none, u) → 0 < u.depth →
      t.Ends maxDepth (some (.truncatedDocument u.depth))
  | whole {u} : t.run.getLast? = some (.ok none, u) → u.depth = 0 → t.Ends maxDepth none

theorem Ends.of_next {t u : Tokenizer} {token : Token} {maxDepth : Nat} {error : Option Error}
    (h : u.Ends maxDepth error) (call : t.next = (.ok (some token), u)) :
    t.Ends maxDepth error := by
  have last : t.run.getLast? = u.run.getLast? := by
    rw [run_of_token call, List.getLast?_cons_of_ne_nil u.run_ne_nil]
  cases h with
  | overflow => exact .overflow
  | refused ends room native => exact .refused (last.trans ends) room native
  | cut ends inside => exact .cut (last.trans ends) inside
  | whole ends outside => exact .whole (last.trans ends) outside

theorem Ends.of_error {t u : Tokenizer} {maxDepth : Nat} {found : Option Error} {error : ParseError}
    (h : t.Ends maxDepth found) (last : t.run.getLast? = some (.error error, u)) :
    found = some (.malformed error) ∨ found = some (.stackOverflow maxDepth) := by
  cases h with
  | overflow => exact .inr rfl
  | refused ends =>
    cases ends.symm.trans last
    exact .inl rfl
  | cut ends | whole ends => cases ends.symm.trans last

theorem Ends.of_end {t u : Tokenizer} {maxDepth : Nat} {found : Option Error}
    (h : t.Ends maxDepth found) (last : t.run.getLast? = some (.ok none, u))
    (inside : 0 < u.depth) :
    found = some (.truncatedDocument u.depth) ∨ found = some (.stackOverflow maxDepth) := by
  cases h with
  | overflow => exact .inr rfl
  | refused ends => cases ends.symm.trans last
  | cut ends =>
    cases ends.symm.trans last
    exact .inl rfl
  | whole ends outside =>
    cases ends.symm.trans last
    exact absurd outside (Nat.ne_of_gt inside)

/-- A scan at the end of the tokens finds them cut off just where containers are open. -/
theorem ends_of_end {t u : Tokenizer} (call : t.next = (.ok none, u)) (maxDepth : Nat)
    (last : t.run.getLast? = some (.ok none, u)) : t.Ends maxDepth (t.place.endFault? none) := by
  obtain ⟨depth, inside⟩ := depth_of_end call
  by_cases left : t.place.named ∨ 0 < t.place.depth
  · have deep : 0 < u.depth := by
      rw [depth]
      exact left.elim (fun named => inside (of_decide_eq_true named)) id
    have found : t.place.endFault? none = some (.truncatedDocument u.depth) := by
      rw [depth]
      exact if_pos left
    rw [found]
    exact .cut last deep
  · have outside : t.depth = 0 := Nat.eq_zero_of_not_pos fun deep => left (.inr deep)
    have found : t.place.endFault? none = none := if_neg left
    rw [found]
    exact .whole last (depth.trans outside)

/-- A scan of what a tokenizer gives ends as the tokenizer does, unless it stops for want of room,
and then it does so before the tokenizer. -/
theorem ends_verdict {maxDepth : Nat} (bounded : maxDepth < Nesting.maxDepth) {t : Tokenizer}
    (shallow : t.depth ≤ maxDepth) :
    t.Ends maxDepth
      (verdict maxDepth t.feed.failure t.place (t.feed.pulls.map (·.token.sight))) := by
  -- The scan keeps to the place of the tokenizer, whose depth is at most `maxDepth` all along.
  induction t using run.induct with
  | case1 t token u call ih =>
    obtain ⟨admits, moved⟩ := admits_of_next call
    rw [feed_of_token call, List.map_cons, verdict]
    cases fault : t.place.fault? maxDepth token.sight with
    | some error =>
      obtain ⟨-, -, rfl⟩ := admits.overflow fault
      exact .overflow
    | none =>
      have shallow' : u.place.depth ≤ maxDepth := moved ▸ Place.depth_after_le fault shallow
      have after : t.place.after token.sight.kind = u.place := moved.symm
      rw [Option.none_or, after]
      exact (ih shallow').of_next call
  | case2 t answer u other call =>
    have last : t.run.getLast? = some t.next := by
      rw [run_of_no_token fun token same => other token (by rwa [call] at same)]
      rfl
    rw [call] at last
    cases answer with
    | error error =>
      rw [feed_of_error call]
      exact .refused last (Nat.lt_of_le_of_lt shallow bounded) (t.refuses_next _ (by rw [call]))
    | ok given =>
      cases given with
      | some token => exact (other token rfl).elim
      | none =>
        rw [feed_of_end call]
        exact ends_of_end call maxDepth last

end Json.Tokenizer

namespace Reducer

theorem ends_processWith {config : Config} {initial : α} {rules : List (Rule α)}
    {reducer : Reducer α} (built : build config initial rules = .ok reducer) (document : Bytes)
    (aggregate : α) : (Tokenizer.start config.options document).Ends config.maxDepth
      (errorOf (reducer.processWith document aggregate)) := by
  have scanned := errorOf_processTokens built (reducer.feedOf document) aggregate
  obtain ⟨set, bounded, -, rfl⟩ := build_eq_ok built
  have room : config.maxDepth < Nesting.maxDepth := Nat.lt_of_le_of_lt bounded (by decide)
  rw [processWith, scanned]
  exact Tokenizer.ends_verdict room (Nat.zero_le _)

/-- Whatever a document is, reducing it closes no container that is not open, finds none cut off
outside all containers, misses no value after a name, and stops before the tokenizer has no room. It
is malformed as the tokenizer says, cut off as deep as the tokenizer is at the end, and too deep
only by the depth that is set; and unless it is too deep, it fails where the tokenizer does and
where the tokenizer ends inside a container. -/
theorem processWith_failures {config : Config} {initial : α} {rules : List (Rule α)}
    {reducer : Reducer α} (built : build config initial rules = .ok reducer) (document : Bytes)
    (aggregate : α) :
    let run := (Tokenizer.start config.options document).run
    let result := reducer.processWith document aggregate
    result ≠ .error .stackUnderflow ∧ result ≠ .error (.truncatedDocument 0) ∧
      (∀ error, result = .error (.malformed error) →
        error.fault.message ≠ Fault.expectedValue.message ∧
        error.fault.message ≠ Fault.nestingTooDeep.message ∧
        ∃ t, run.getLast? = some (.error error, t)) ∧
      (∀ depth, result = .error (.truncatedDocument depth) →
        ∃ t, run.getLast? = some (.ok none, t) ∧ t.depth = depth) ∧
      (∀ max, result = .error (.stackOverflow max) → max = config.maxDepth) ∧
      (∀ error t, run.getLast? = some (.error error, t) →
        result = .error (.malformed error) ∨ result = .error (.stackOverflow config.maxDepth)) ∧
      ∀ t, run.getLast? = some (.ok none, t) → 0 < t.depth →
        result = .error (.truncatedDocument t.depth) ∨
          result = .error (.stackOverflow config.maxDepth) := by
  intro run result
  have ends := ends_processWith built document aggregate
  have failed {error : Error} (h : result = .error error) :
      (Tokenizer.start config.options document).Ends config.maxDepth (some error) := by
    have found : errorOf result = some error := errorOf_eq_some_iff.2 h
    rwa [← found]
  refine ⟨fun h => ?_, fun h => ?_, fun error h => ?_, fun depth h => ?_, fun max h => ?_, ?_, ?_⟩
  · cases failed h
  · have cut := failed h
    generalize none : 0 = depth at cut
    cases cut with
    | cut _ inside => exact absurd none (Nat.ne_of_lt inside)
  · cases failed h with
    | refused last room native =>
      exact ⟨native.message_ne_expectedValue, native.message_ne_nestingTooDeep room, _, last⟩
  · cases failed h with
    | cut last => exact ⟨_, last, rfl⟩
  · cases failed h
    rfl
  · intro error t last
    exact (ends.of_error last).imp errorOf_eq_some_iff.1 errorOf_eq_some_iff.1
  · intro t last inside
    exact (ends.of_end last inside).imp errorOf_eq_some_iff.1 errorOf_eq_some_iff.1

/-- A document that is cut off after a name. -/
theorem processWith_failures_after_name :
    let document : Bytes := [0x7B, 0x22, 0x61, 0x22]
    ∃ reducer, build .strict 0 [] = .ok reducer ∧
      reducer.processWith document 0 = .error (.truncatedDocument 1) ∧
      ∃ t, (Tokenizer.start .strict document).run.getLast? = some (.ok none, t) ∧ t.depth = 1 := by
  intro document
  have built : build .strict 0 [] = .ok _ := rfl
  obtain ⟨-, -, -, truncated, -⟩ := processWith_failures built document 0
  have tokens : (Tokenizer.start .strict document).feed =
      ⟨[⟨⟨.opening .object, [0x7B], 0, 1, false⟩, 1⟩, ⟨⟨.propertyName, [0x61], 1, 4, false⟩, 1⟩],
        none⟩ := by decide +kernel
  have cut := congrArg (processTokens ⟨.empty 16, 0, .strict⟩ · 0) tokens
  exact ⟨_, built, cut, truncated 1 cut⟩

end Reducer

end PathFold
