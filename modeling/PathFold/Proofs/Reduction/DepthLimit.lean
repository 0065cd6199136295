import PathFold.Proofs.Reduction.Document

/-! The limit on the depth only cuts off. Rules compile under a greater limit to the same as under a
smaller one, and two walks with the same rules go on together until the one with less room has none
left. -/

namespace PathFold

open PathFold.Json

variable {α : Type}

namespace RuleSet

/-- That two sets have the same rules under the same symbols. They may be filed up to different
depths. -/
structure Agrees (set other : RuleSet α) : Prop where
  symbols : other.symbols = set.symbols
  rules : other.rules = set.rules

theorem add_of_le {maxDepth deeper : Nat} (le : maxDepth ≤ deeper) {set other next : RuleSet α}
    {rule : Rule α} (agrees : set.Agrees other) (h : set.add maxDepth rule = .ok next) :
    ∃ after, other.add deeper rule = .ok after ∧ next.Agrees after := by
  obtain ⟨frames, symbols, property, symbols', compiled, shallow, recorded, rfl⟩ := add_eq_ok h
  have fits : ¬ deeper < frames.length := Nat.not_lt_of_le (Nat.le_trans shallow le)
  unfold add
  rw [agrees.symbols, compiled]
  dsimp only
  rw [if_neg fits, recorded]
  exact ⟨_, rfl, rfl, congrArg (· ++ _) agrees.rules⟩

/-- What compiles under a limit compiles to the same under a greater one. -/
theorem compile_of_le {maxDepth deeper : Nat} (le : maxDepth ≤ deeper) {rules : List (Rule α)}
    {set : RuleSet α} (h : compile rules maxDepth = .ok set) :
    ∃ other, compile rules deeper = .ok other ∧ set.Agrees other := by
  refine compile_induction h
    (P := fun rules set => ∃ other, compile rules deeper = .ok other ∧ set.Agrees other) ?_ ?_
  · exact ⟨empty deeper, rfl, rfl, rfl⟩
  · rintro done set rule next ⟨other, compiled, agrees⟩ added
    obtain ⟨after, added', agrees'⟩ := add_of_le le agrees added
    refine ⟨after, ?_, agrees'⟩
    unfold compile at compiled ⊢
    rw [List.foldlM_append, compiled]
    change List.foldlM (add deeper) other [rule] = _
    rw [List.foldlM_cons, added']
    rfl

/-- Sets with the same rules have the same candidates at each depth. -/
theorem Agrees.candidates {set other : RuleSet α} (h : set.Agrees other) (filed : set.Filed)
    (filed' : other.Filed) (depth : Nat) : other.candidates depth = set.candidates depth := by
  rw [filed, filed', h.rules]

end RuleSet

namespace Path

/-- The same frames under another limit. -/
def withLimit (path : Path) (limit : Nat) : Path := ⟨path.frames, limit⟩

/-- A frame that can be pushed can be pushed where there is more room. -/
theorem push_withLimit {path : Path} {limit : Nat} (le : path.limit ≤ limit) (frame : Frame) :
    path.push frame = .error (.stackOverflow path.limit) ∨
      (path.withLimit limit).push frame = (path.push frame).map (·.withLimit limit) := by
  by_cases room : path.depth < path.limit
  · have room' : (path.withLimit limit).depth < (path.withLimit limit).limit :=
      Nat.lt_of_lt_of_le room le
    rw [push_of_lt room, push_of_lt room']
    exact .inr rfl
  · exact .inl (push_of_le (Nat.le_of_not_lt room) frame)

theorem pop_withLimit (path : Path) (limit : Nat) :
    (path.withLimit limit).pop =
      path.pop.map fun (frame, outer) => (frame, outer.withLimit limit) := by
  unfold pop withLimit
  dsimp only
  cases path.frames.getLast? <;> rfl

end Path

/-- The same state of dispatch under another limit. -/
def Firing.withLimit (state : Firing α) (limit : Nat) : Firing α :=
  ⟨state.path.withLimit limit, state.aggregate, state.fired⟩

namespace RuleSet

theorem tryRule_withLimit {set other : RuleSet α} (agrees : set.Agrees other) (property : Property)
    (state : Firing α) (limit : Nat) (index : Nat) :
    other.tryRule property (state.withLimit limit) index =
      (set.tryRule property state index).withLimit limit := by
  unfold tryRule get?
  rw [agrees.rules]
  cases set.rules[index]? with
  | none => rfl
  | some rule =>
    have accepts : rule.accepts (state.withLimit limit).path property.symbol property.scalar.kind =
        rule.accepts state.path property.symbol property.scalar.kind := rfl
    dsimp only
    rw [accepts]
    split <;> rfl

/-- Rules see the frames of a path and not its limit. -/
theorem dispatch_withLimit {set other : RuleSet α} (agrees : set.Agrees other) (filed : set.Filed)
    (filed' : other.Filed) (property : Property) (path : Path) (limit : Nat) (aggregate : α) :
    other.dispatch property (path.withLimit limit) aggregate =
      (set.dispatch property path aggregate).withLimit limit := by
  have same : other.candidates (path.withLimit limit).depth = set.candidates path.depth :=
    agrees.candidates filed filed' path.depth
  unfold dispatch
  rw [same]
  let start : Firing α := ⟨path, aggregate, []⟩
  change List.foldl (other.tryRule property) (start.withLimit limit) _ = _
  exact List.foldl_hom (Firing.withLimit · limit) fun state index =>
    tryRule_withLimit agrees property state limit index

end RuleSet

namespace Walk

/-- The same walk with a path under another limit. -/
def withLimit (walk : Walk α) (limit : Nat) : Walk α :=
  ⟨walk.path.withLimit limit, walk.aggregate, walk.pending⟩

section

variable {set other : RuleSet α} {walk : Walk α} {limit : Nat}

theorem stepPlain_withLimit (agrees : set.Agrees other) (le : walk.path.limit ≤ limit)
    (token : Token) :
    walk.stepPlain set token = .error (.stackOverflow walk.path.limit) ∨
      (walk.withLimit limit).stepPlain other token =
        (walk.stepPlain set token).map (·.withLimit limit) := by
  obtain ⟨kind, raw, start, stop, escaped⟩ := token
  cases kind with
  | opening container =>
    rcases Path.push_withLimit le (.anonymous container) with full | room
    · exact .inl (congrArg (Except.map _) full)
    · refine .inr ((congrArg (Except.map _) room).trans ?_)
      exact Except.map_comm fun _ => rfl
  | closing container =>
    refine .inr ((congrArg (Except.map _) (walk.path.pop_withLimit limit)).trans ?_)
    exact Except.map_comm fun _ => rfl
  | propertyName =>
    have same : other.symbols.encode raw = set.symbols.encode raw := by rw [agrees.symbols]
    refine .inr (congrArg Except.ok ?_)
    rw [same]
    rfl
  | string | number | boolean | null => exact .inr rfl

theorem stepValue_withLimit (agrees : set.Agrees other) (filed : set.Filed) (filed' : other.Filed)
    (le : walk.path.limit ≤ limit) (pending : Pending) (token : Token) :
    walk.stepValue set pending token = .error (.stackOverflow walk.path.limit) ∨
      (walk.withLimit limit).stepValue other pending token =
        (walk.stepValue set pending token).map fun (next, fired) =>
          (next.withLimit limit, fired) := by
  obtain ⟨kind, raw, start, stop, escaped⟩ := token
  have dispatched (scalar : Scalar) := RuleSet.dispatch_withLimit agrees filed filed'
    ⟨scalar, pending.name, pending.symbol⟩ walk.path limit walk.aggregate
  cases kind with
  | opening container =>
    rcases Path.push_withLimit le (.named container pending.symbol) with full | room
    · exact .inl (congrArg (Except.map _) full)
    · refine .inr ((congrArg (Except.map _) room).trans ?_)
      exact Except.map_comm fun _ => rfl
  | closing | propertyName => exact .inr rfl
  | string | number | boolean | null =>
    refine .inr (congrArg Except.ok ?_)
    exact congrArg (fun firing => ((⟨firing.path, firing.aggregate, none⟩ : Walk α), firing.fired))
      (dispatched _)

/-- A token that finds room does the same where there is more. -/
theorem step_withLimit (agrees : set.Agrees other) (filed : set.Filed) (filed' : other.Filed)
    (le : walk.path.limit ≤ limit) (pull : Pull) :
    walk.step set pull = .error (.stackOverflow walk.path.limit) ∨
      (walk.withLimit limit).step other pull =
        (walk.step set pull).map fun (next, events) => (next.withLimit limit, events) := by
  have waits : (walk.withLimit limit).pending = walk.pending := rfl
  unfold step
  rw [waits]
  cases walk.pending with
  | none =>
    rcases stepPlain_withLimit agrees le pull.token with full | room
    · exact .inl (congrArg (Except.map _) full)
    · refine .inr ((congrArg (Except.map _) room).trans ?_)
      exact Except.map_comm fun _ => rfl
  | some pending =>
    rcases stepValue_withLimit agrees filed filed' le pending pull.token with full | room
    · exact .inl (congrArg (Except.map _) full)
    · refine .inr ((congrArg (Except.map _) room).trans ?_)
      exact Except.map_comm fun _ => rfl

/-- Two walks with the same rules come to the same, unless the one with less room has none left. -/
theorem run_withLimit (agrees : set.Agrees other) (filed : set.Filed) (filed' : other.Filed)
    (le : walk.path.limit ≤ limit) (shallow : walk.path.depth ≤ walk.path.limit)
    (failure : Option ParseError) (pulls : List Pull) :
    (walk.run set failure pulls).result = .error (.stackOverflow walk.path.limit) ∨
      ((walk.withLimit limit).run other failure pulls).result =
        (walk.run set failure pulls).result := by
  induction pulls generalizing walk with
  | nil => exact .inr rfl
  | cons pull pulls ih =>
    unfold run
    rcases step_withLimit agrees filed filed' le pull with full | same
    · rw [full]
      exact .inl rfl
    · rw [same]
      cases stepped : walk.step set pull with
      | error error => exact .inr rfl
      | ok result =>
        obtain ⟨next, events⟩ := result
        obtain ⟨fired, moves, -⟩ := moves_of_step stepped
        obtain ⟨bound, shallow', -⟩ := moves.bounds shallow
        rw [← bound] at le ⊢
        exact ih le shallow'

end

end Walk

namespace Reducer

theorem build_of_compile {config : Config} {rules : List (Rule α)} {set : RuleSet α}
    (positive : 1 ≤ config.maxDepth) (bounded : config.maxDepth ≤ Path.maxDepth)
    (compiled : RuleSet.compile rules config.maxDepth = .ok set) (initial : α) :
    build config initial rules = .ok ⟨set, initial, config⟩ := by
  have valid : config.validate = .ok () := if_neg (by omega)
  rw [build, valid, compiled]

/-- The limit on the depth only cuts off: what compiles under a limit compiles to the same rules
under a greater one, and reducing any document then comes to the same, unless the document is too
deep for the smaller limit. -/
theorem process_of_deeper {rules : List (Rule α)} {maxDepth deeper : Nat} (positive : 1 ≤ maxDepth)
    (le : maxDepth ≤ deeper) (bounded : deeper ≤ Path.maxDepth) {set : RuleSet α}
    (compiled : RuleSet.compile rules maxDepth = .ok set) :
    ∃ other, RuleSet.compile rules deeper = .ok other ∧
      other.symbols = set.symbols ∧ other.rules = set.rules ∧
      ∀ (options : Options) (initial : α), ∃ narrow wide,
        build ⟨maxDepth, options⟩ initial rules = .ok narrow ∧
        build ⟨deeper, options⟩ initial rules = .ok wide ∧
        ∀ document, narrow.process document = .error (.stackOverflow maxDepth) ∨
          wide.process document = narrow.process document := by
  obtain ⟨other, compiled', agrees⟩ := RuleSet.compile_of_le le compiled
  refine ⟨other, compiled', agrees.symbols, agrees.rules, fun options initial => ?_⟩
  have bounded' : maxDepth ≤ Path.maxDepth := Nat.le_trans le bounded
  have built : build ⟨maxDepth, options⟩ initial rules = .ok _ :=
    build_of_compile positive bounded' compiled initial
  have built' : build ⟨deeper, options⟩ initial rules = .ok _ :=
    build_of_compile (Nat.le_trans positive le) bounded compiled' initial
  refine ⟨_, _, built, built', fun document => ?_⟩
  have filed := RuleSet.filed_of_compile compiled
  have filed' := RuleSet.filed_of_compile compiled'
  have limit : (Walk.start maxDepth initial).path.limit = maxDepth := Nat.min_eq_left bounded'
  have start : (Walk.start maxDepth initial).withLimit deeper = Walk.start deeper initial := by
    rw [Walk.start, Walk.start, Path.empty, Path.empty, Nat.min_eq_left bounded]
    rfl
  have ran := Walk.run_withLimit agrees filed filed' (Nat.le_trans (Nat.le_of_eq limit) le)
    (Nat.zero_le _) (Tokenizer.start options document).feed.failure
    (Tokenizer.start options document).feed.pulls
  rwa [limit, start] at ran

/-- The cut-off document `{"a":0`, for limits of one container and of two. -/
theorem process_of_deeper_cut_off :
    let count : Rule Nat := ⟨[.container .object], none, none, fun _ _ _ n => ⟨n + 1, []⟩⟩
    ∃ wide, build ⟨2, .strict⟩ 0 [count] = .ok wide ∧
      wide.process [0x7B, 0x22, 0x61, 0x22, 0x3A, 0x30] = .error (.truncatedDocument 1) := by
  intro count
  have compiled : RuleSet.compile [count] 1 = .ok _ := rfl
  obtain ⟨-, -, -, -, reducers⟩ :=
    process_of_deeper (Nat.le_refl 1) (Nat.le_succ 1) (by decide) compiled
  obtain ⟨narrow, wide, built, built', same⟩ := reducers .strict 0
  have tokens : (Tokenizer.start .strict [0x7B, 0x22, 0x61, 0x22, 0x3A, 0x30]).feed =
      ⟨[⟨⟨.opening .object, [0x7B], 0, 1, false⟩, 1⟩, ⟨⟨.propertyName, [0x61], 1, 4, false⟩, 1⟩,
        ⟨⟨.number, [0x30], 5, 6, false⟩, 1⟩], none⟩ := by decide +kernel
  have cut : narrow.process [0x7B, 0x22, 0x61, 0x22, 0x3A, 0x30] =
      .error (.truncatedDocument 1) := by
    cases built
    exact congrArg (processTokens _ · 0) tokens
  refine ⟨wide, built', ?_⟩
  rcases same [0x7B, 0x22, 0x61, 0x22, 0x3A, 0x30] with full | same
  · rw [cut] at full
    cases full
  · rw [same, cut]

end Reducer

end PathFold
