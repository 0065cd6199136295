import PathFold.Proofs.Reduction.Failures
import PathFold.Proofs.Rule.Matching

/-! What an observer of a walk over a document sees. The path and the nesting of the tokenizer are
kept apart and by different means, but after every token both are the containers that the tokens so
far have left open; this holds for every document, up to where the walk over it ends. -/

namespace PathFold

open PathFold.Json

variable {α : Type}

/-- What tokens leave behind: the containers that are open, root first, and the name right before
the next token, if one is there. -/
structure Nest where
  opened : List Opened
  name : Option Bytes
  deriving DecidableEq, Repr

namespace Nest

def start : Nest := ⟨[], none⟩

/-- How a container that comes next is opened. -/
def opening (nest : Nest) : Opening :=
  match nest.name with
  | some name => .key name
  | none => if nest.opened = [] then .root else .element

def after (nest : Nest) (token : Token) : Nest :=
  match token.kind with
  | .opening kind => ⟨nest.opened ++ [⟨kind, nest.opening⟩], none⟩
  | .closing _ => ⟨nest.opened.dropLast, none⟩
  | .propertyName => ⟨nest.opened, some token.raw⟩
  | .string | .number | .boolean _ | .null => ⟨nest.opened, none⟩

theorem after_of_scalar {token : Token} (h : token.kind.scalarKind?.isSome) (nest : Nest) :
    nest.after token = ⟨nest.opened, none⟩ := by
  obtain ⟨kind, raw, start, stop, escaped⟩ := token
  cases kind with
  | opening | closing | propertyName => cases h
  | string | number | boolean | null => rfl

/-- The symbol of a container that comes next is that of its name if it has one. -/
theorem symbol_frame (nest : Nest) (table : SymbolTable) (kind : ContainerKind) :
    (Opened.frame table ⟨kind, nest.opening⟩).symbol =
      (nest.name.map table.encode).getD .wildcard := by
  obtain ⟨opened, name⟩ := nest
  cases name with
  | some name => rfl
  | none =>
    by_cases outside : opened = []
    · rw [opening, if_pos outside]
      rfl
    · rw [opening, if_neg outside]
      rfl

end Nest

/-- The containers that are open after further tokens, root first. -/
def Nest.openedBy (nest : Nest) (tokens : List Token) : List Opened :=
  (tokens.foldl after nest).opened

/-- The kind of the token that an event is about, if it is about one. -/
def Event.kind? : Event → Option TokenKind
  | .token kind _ _ => some kind
  | .fired _ => none

/-- The events that are about tokens. -/
def Outcome.reports (outcome : Outcome α) : List Event :=
  outcome.events.filter (·.kind?.isSome)

/-- That a depth and frames are those of the containers that are open, and agree with the nesting of
the tokenizer. -/
structure RuleSet.Shows (set : RuleSet α) (limit : Nat) (t : Tokenizer) (opened : List Opened)
    (depth : Nat) (frames : List Frame) : Prop where
  reported : depth = t.depth
  length : frames.length = depth
  bounded : depth ≤ limit
  nesting : t.nesting.kinds = frames.map (·.kind)
  kinds : frames.map (·.kind) = opened.map (·.kind)
  symbols : frames.map (·.symbol) = opened.map fun container => (container.frame set.symbols).symbol

/-- A token opens and closes the same container in the grammar's stage as in a nest. -/
theorem Json.Writes.kinds_after {ready next : Stage} {written : Bytes} {token : Token}
    (h : Writes ready written token.lexeme next) {nest : Nest}
    (same : nest.opened.map (·.kind) = ready.kinds.reverse) :
    (nest.after token).opened.map (·.kind) = next.kinds.reverse := by
  obtain ⟨kind, raw, start, stop, escaped⟩ := token
  generalize written : Token.lexeme ⟨kind, raw, start, stop, escaped⟩ = lexeme at h
  cases h with
  | opening =>
    cases written
    simp [Nest.after, Stage.inside, same]
  | closing =>
    cases written
    simp [Nest.after, Stage.afterValue, same]
  | scalar _ scalar =>
    have isScalar := scalar.scalarKind?
    rw [← written] at isScalar
    rw [Nest.after_of_scalar isScalar]
    exact same
  | name =>
    cases written
    exact same

/-- A token leaves the same containers open for a tokenizer and for a nest. -/
theorem Json.Tokenizer.kinds_of_next {t u : Tokenizer} {token : Token}
    (h : t.next = (.ok (some token), u)) {nest : Nest}
    (same : nest.opened.map (·.kind) = t.nesting.kinds) :
    (nest.after token).opened.map (·.kind) = u.nesting.kinds := by
  obtain ⟨passed, ready, written, -, came, took⟩ := took_of_next h
  have kinds : ready.stage.kinds.reverse = t.nesting.kinds := by
    rw [came.lead.kinds]
    exact List.reverse_reverse _
  have after := took.writes.kinds_after (same.trans kinds.symm)
  rw [after]
  exact List.reverse_reverse _

namespace Walk

/-- That the path of a walk is the containers that are open, and that the walk waits with the name
that has just come. -/
structure Covers (set : RuleSet α) (nest : Nest) (walk : Walk α) : Prop where
  frames : walk.path.frames.map Frame.place =
    nest.opened.map fun container => (container.frame set.symbols).place
  pending : walk.pending = nest.name.map fun name => ⟨name, set.symbols.encode name⟩

/-- A token does to the path what it does to the containers that are open, whatever the rules do. -/
theorem Moves.covers {set : RuleSet α} {walk next : Walk α} {token : Token} {fired : List Nat}
    (h : Moves set walk token next fired) {nest : Nest} (covers : walk.Covers set nest) :
    next.Covers set (nest.after token) := by
  obtain ⟨frames, pending⟩ := covers
  cases h with
  | @opened container kind room =>
    have symbol : walk.symbolAhead = (nest.name.map set.symbols.encode).getD .wildcard := by
      rw [symbolAhead, pending]
      cases nest.name <;> rfl
    have place : (Frame.named container walk.symbolAhead).place =
        (Opened.frame set.symbols ⟨container, nest.opening⟩).place := by
      rw [symbol, ← nest.symbol_frame set.symbols container]
      rfl
    rw [Nest.after, kind]
    refine ⟨?_, rfl⟩
    rw [List.map_append, List.map_append, frames]
    exact congrArg (_ ++ [·]) place
  | @closed container frame outer kind plain split =>
    rw [Nest.after, kind]
    refine ⟨?_, rfl⟩
    rw [split] at frames
    have shorter := congrArg List.dropLast frames
    rw [List.map_append, List.map_singleton, List.dropLast_concat, ← List.map_dropLast] at shorter
    exact shorter
  | named kind =>
    rw [Nest.after, kind]
    exact ⟨frames, rfl⟩
  | passed scalar plain =>
    rw [Nest.after_of_scalar (Scalar.isSome_of_ofToken? scalar)]
    exact ⟨frames, plain⟩
  | offered scalar _ dispatched =>
    rw [Nest.after_of_scalar (Scalar.isSome_of_ofToken? scalar)]
    subst dispatched
    refine ⟨?_, rfl⟩
    let view (path : Path) := path.frames.map Frame.place
    have kept (path : Path) (indices : List Nat) : view (path.invalidateAll indices) = view path :=
      Path.map_frames_invalidateAll (fun _ => rfl) path indices
    exact (set.view_dispatch kept _ walk.path walk.aggregate).trans frames

/-- That a walk over what a tokenizer gives has come to the same place as the tokenizer. -/
structure Along (set : RuleSet α) (t : Tokenizer) (nest : Nest) (walk : Walk α) : Prop where
  place : walk.place = t.place
  shallow : walk.path.depth ≤ walk.path.limit
  covers : walk.Covers set nest
  kinds : nest.opened.map (·.kind) = t.nesting.kinds

theorem Along.depth_eq {set : RuleSet α} {t : Tokenizer} {nest : Nest} {walk : Walk α}
    (h : walk.Along set t nest) : walk.path.depth = t.depth :=
  congrArg Place.depth h.place

theorem Along.shows {set : RuleSet α} {t : Tokenizer} {nest : Nest} {walk : Walk α}
    (h : walk.Along set t nest) :
    set.Shows walk.path.limit t nest.opened t.depth walk.path.frames := by
  have kinds := congrArg (List.map Prod.fst) h.covers.frames
  have symbols := congrArg (List.map Prod.snd) h.covers.frames
  rw [List.map_map, List.map_map] at kinds symbols
  have bounded : t.depth ≤ walk.path.limit := h.depth_eq ▸ h.shallow
  exact ⟨rfl, h.depth_eq, bounded, h.kinds.symm.trans kinds.symm, kinds, symbols⟩

/-- A token that is not refused is seen with the containers that are open after it. -/
theorem Along.next {set : RuleSet α} {t u : Tokenizer} {nest : Nest} {walk next : Walk α}
    {token : Token} {events : List Event} (h : walk.Along set t nest)
    (call : t.next = (.ok (some token), u))
    (step : walk.step set ⟨token, u.depth⟩ = .ok (next, events)) :
    next.Along set u (nest.after token) ∧ next.path.limit = walk.path.limit ∧
      events.filter (·.kind?.isSome) = [.token token.kind u.depth next.path.frames] := by
  obtain ⟨fired, moves, rfl⟩ := moves_of_step step
  obtain ⟨limit, shallow, -, -⟩ := moves.bounds h.shallow
  have place : next.place = u.place := by
    rw [moves.place h.shallow, (Tokenizer.admits_of_next call).2, h.place]
  have rules : (fired.map Event.fired).filter (·.kind?.isSome) = [] := by
    simp [Event.kind?]
  refine ⟨⟨place, shallow, moves.covers h.covers, Tokenizer.kinds_of_next call h.kinds⟩, limit, ?_⟩
  rw [List.filter_append, rules]
  rfl

/-- A token that is refused opens a container that there is no room for. -/
theorem Along.refused {set : RuleSet α} {t u : Tokenizer} {nest : Nest} {walk : Walk α}
    {token : Token} {error : Error} (h : walk.Along set t nest)
    (call : t.next = (.ok (some token), u))
    (step : walk.step set ⟨token, u.depth⟩ = .error error) :
    (∃ kind, token.kind = .opening kind) ∧ nest.opened.length = walk.path.limit ∧
      error = .stackOverflow walk.path.limit := by
  have fault := errorOf_step set ⟨token, u.depth⟩ h.shallow
  rw [step, h.place] at fault
  obtain ⟨opening, full, same⟩ := (Tokenizer.admits_of_next call).1.overflow fault.symm
  have length := congrArg List.length h.covers.frames
  rw [List.length_map, List.length_map] at length
  exact ⟨opening, (length.symm.trans h.depth_eq).trans full, same⟩

theorem finish_ne_overflow (walk : Walk α) (failure : Option ParseError) (max : Nat) :
    walk.finish failure ≠ .error (.stackOverflow max) := by
  intro overflow
  have fault := walk.errorOf_finish failure
  rw [overflow] at fault
  cases failure with
  | some error => cases fault
  | none =>
    by_cases left : walk.place.named ∨ 0 < walk.place.depth
    · cases fault.trans (if_pos left)
    · cases fault.trans (if_neg left)

/-- What is seen of a walk over what a tokenizer gives. All tokens are seen unless the walk stops
for want of room, and then all before the container that there is no room for; each with the
containers that are open after it. -/
structure Observes (set : RuleSet α) (limit : Nat) (t : Tokenizer) (nest : Nest)
    (outcome : Outcome α) (seen rest : List Token) : Prop where
  split : t.feed.pulls.map (·.token) = seen ++ rest
  kinds : outcome.reports.filterMap Event.kind? = seen.map (·.kind)
  stops : (rest = [] ∧ ∀ max, outcome.result ≠ .error (.stackOverflow max)) ∨
    ∃ token kind later, rest = token :: later ∧ token.kind = .opening kind ∧
      (nest.openedBy seen).length = limit ∧ outcome.result = .error (.stackOverflow limit)
  shows : ∀ (i : Nat) kind depth frames, outcome.reports[i]? = some (.token kind depth frames) →
    ∃ token u, t.run[i]? = some (.ok (some token), u) ∧ seen[i]? = some token ∧
      token.kind = kind ∧ set.Shows limit u (nest.openedBy (seen.take (i + 1))) depth frames

/-- Where the tokenizer gives no token there is nothing to be seen. -/
theorem observes_nil (set : RuleSet α) (limit : Nat) {t : Tokenizer} (nest : Nest)
    (walk : Walk α) (none : t.feed.pulls = []) :
    Observes set limit t nest (walk.run set t.feed.failure t.feed.pulls) [] [] := by
  refine ⟨?_, ?_, .inl ⟨rfl, ?_⟩, ?_⟩
  · rw [none]
    rfl
  · rw [none]
    rfl
  · rw [none]
    exact walk.finish_ne_overflow _
  · rw [none]
    rintro i kind depth frames ⟨⟩

/-- What is seen with one token more before it. -/
theorem Observes.cons {set : RuleSet α} {limit : Nat} {t u : Tokenizer} {nest : Nest}
    {token : Token} {outcome : Outcome α} {seen rest : List Token} {events : List Event}
    {frames : List Frame} (h : Observes set limit u (nest.after token) outcome seen rest)
    (call : t.next = (.ok (some token), u))
    (report : events.filter (·.kind?.isSome) = [.token token.kind u.depth frames])
    (shows : set.Shows limit u (nest.after token).opened u.depth frames) :
    Observes set limit t nest ⟨outcome.result, events ++ outcome.events, outcome.pulled + 1⟩
      (token :: seen) rest := by
  have reports : Outcome.reports ⟨outcome.result, events ++ outcome.events, outcome.pulled + 1⟩ =
      .token token.kind u.depth frames :: outcome.reports := by
    rw [Outcome.reports, List.filter_append, report]
    rfl
  refine ⟨?_, ?_, h.stops, ?_⟩
  · rw [Tokenizer.feed_of_token call]
    exact congrArg (token :: ·) h.split
  · rw [reports]
    exact congrArg (token.kind :: ·) h.kinds
  · intro i kind depth frames here
    rw [reports] at here
    rw [Tokenizer.run_of_token call]
    cases i with
    | zero =>
      cases here
      exact ⟨token, u, rfl, rfl, rfl, shows⟩
    | succ i => exact h.shows i kind depth frames here

/-- What is seen of a walk from where it has come to with the tokenizer. -/
theorem Along.observes {set : RuleSet α} {t : Tokenizer} {nest : Nest} {walk : Walk α}
    (h : walk.Along set t nest) : ∃ seen rest, Observes set walk.path.limit t nest
      (walk.run set t.feed.failure t.feed.pulls) seen rest := by
  -- Tokenizer, walk and nest move on together until there is no token or the walk refuses one.
  induction t using Tokenizer.run.induct generalizing walk nest with
  | case1 t token u call ih =>
    have feed := Tokenizer.feed_of_token call
    rw [feed, run]
    cases step : walk.step set ⟨token, u.depth⟩ with
    | error error =>
      obtain ⟨⟨kind, opening⟩, full, rfl⟩ := h.refused call step
      refine ⟨[], token :: u.feed.pulls.map (·.token), ?_, rfl, ?_, ?_⟩
      · rw [feed]
        rfl
      · exact .inr ⟨token, kind, _, rfl, opening, full, rfl⟩
      · rintro i kind depth frames ⟨⟩
    | ok result =>
      obtain ⟨next, events⟩ := result
      obtain ⟨along, limit, report⟩ := h.next call step
      have shows := along.shows
      obtain ⟨seen, rest, observes⟩ := ih along
      rw [limit] at observes shows
      exact ⟨token :: seen, rest, observes.cons call report shows⟩
  | case2 t answer u other call =>
    refine ⟨[], [], observes_nil set _ nest walk ?_⟩
    cases answer with
    | error error => rw [Tokenizer.feed_of_error call]
    | ok given =>
      cases given with
      | some token => exact (other token rfl).elim
      | none => rw [Tokenizer.feed_of_end call]

end Walk

/-- Whatever a document is, and whatever frames the actions invalidate, an observer sees the tokens
of the document one by one, up to its end, its first error or the first container that there is no
room for; and after each token the path is made up of the containers that are open, as many and of
the same kinds as the tokenizer keeps, and no more than may be. -/
theorem Reducer.observeDocument_reports {config : Config} {initial : α} {rules : List (Rule α)}
    {reducer : Reducer α} (built : build config initial rules = .ok reducer) (document : Bytes)
    (aggregate : α) : ∃ seen rest, Walk.Observes reducer.rules config.maxDepth
      (Tokenizer.start config.options document) .start
      (reducer.observeDocument document aggregate) seen rest := by
  obtain ⟨set, bounded, -, rfl⟩ := build_eq_ok built
  have along : (Walk.start config.maxDepth aggregate).Along set
      (Tokenizer.start config.options document) .start :=
    ⟨rfl, Nat.zero_le _, ⟨rfl, rfl⟩, rfl⟩
  have observed := along.observes
  rwa [Walk.limit_start bounded] at observed

/-- An array inside the root where only one container may be open: its name is what is seen last. -/
theorem Reducer.observeDocument_reports_overflow :
    let document : Bytes := [0x7B, 0x22, 0x61, 0x22, 0x3A, 0x5B]
    ∃ reducer seen rest, build ⟨1, .strict⟩ 0 [] = .ok reducer ∧
      Walk.Observes reducer.rules 1 (Tokenizer.start .strict document) .start
        (reducer.observeDocument document 0) seen rest ∧
      seen.map (·.kind) = [.opening .object, .propertyName] := by
  intro document
  have built : build ⟨1, .strict⟩ 0 [] = .ok _ := rfl
  have tokens : (Tokenizer.start .strict document).feed =
      ⟨[⟨⟨.opening .object, [0x7B], 0, 1, false⟩, 1⟩, ⟨⟨.propertyName, [0x61], 1, 4, false⟩, 1⟩,
        ⟨⟨.opening .array, [0x5B], 5, 6, false⟩, 2⟩], none⟩ := by decide +kernel
  obtain ⟨seen, rest, observed⟩ := observeDocument_reports built document 0
  have outcome := congrArg (observe ⟨.empty 1, 0, ⟨1, .strict⟩⟩ · 0) tokens
  have reports := congrArg (·.reports.filterMap Event.kind?) outcome
  exact ⟨_, seen, rest, built, observed, observed.kinds.symm.trans reports⟩

end PathFold
