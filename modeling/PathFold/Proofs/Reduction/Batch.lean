import PathFold.Reducer.Schedule

/-! A batch comes to the same however it is cut up. If every document is reduced, the result is the
fold of their aggregates in document order; if one is refused, the result is the refusal of one. -/

namespace PathFold.Reducer

variable {α : Type} {reducer : Reducer α} {combine : α → α → α}

/-- What the documents of a batch come to: all aggregates folded into the start, or the failure of
one document. -/
inductive Reduces (reducer : Reducer α) (combine : α → α → α) (start : α)
    (documents : List Bytes) : Except Error α → Prop
  | folded (totals : List α) (each : reducer.processBatch documents = totals.map .ok) :
    Reduces reducer combine start documents (.ok (totals.foldl combine start))
  | failed (error : Error) (one : .error error ∈ reducer.processBatch documents) :
    Reduces reducer combine start documents (.error error)

namespace Reduces

theorem cons_of_ok {start total : α} {document : Bytes} {documents : List Bytes}
    {result : Except Error α} (first : reducer.process document = .ok total)
    (rest : Reduces reducer combine (combine start total) documents result) :
    Reduces reducer combine start (document :: documents) result := by
  cases rest with
  | folded totals each =>
    apply folded (total :: totals)
    simpa [processBatch, first] using each
  | failed error one => exact .failed error (List.mem_cons_of_mem _ one)

theorem foldlM (reducer : Reducer α) (combine : α → α → α) (documents : List Bytes) (start : α) :
    Reduces reducer combine start documents (documents.foldlM
      (fun total document => (reducer.process document).map (combine total)) start) := by
  induction documents generalizing start with
  | nil => exact folded [] rfl
  | cons document documents ih =>
    rw [List.foldlM_cons]
    cases first : reducer.process document with
    | error error => exact failed error (by simp [processBatch, first])
    | ok total => exact cons_of_ok first (ih (combine start total))

/-- A fold that starts again from the initial aggregate goes on where the fold before has ended. -/
theorem combine_foldl (assoc : ∀ a b c, combine (combine a b) c = combine a (combine b c))
    (neutral : ∀ a, combine a reducer.initial = a) (start : α) (totals others : List α) :
    combine (totals.foldl combine start) (others.foldl combine reducer.initial) =
      (totals ++ others).foldl combine start := by
  have : Std.Associative combine := ⟨assoc⟩
  calc combine (totals.foldl combine start) (others.foldl combine reducer.initial)
      = others.foldl combine (combine (totals.foldl combine start) reducer.initial) :=
        List.foldl_assoc.symm
    _ = others.foldl combine (totals.foldl combine start) := by rw [neutral]
    _ = (totals ++ others).foldl combine start := List.foldl_append.symm

theorem joined {start : α} {left right : List Bytes} {before after : Except Error α}
    (assoc : ∀ a b c, combine (combine a b) c = combine a (combine b c))
    (neutral : ∀ a, combine a reducer.initial = a) (kept : Side)
    (first : Reduces reducer combine start left before)
    (second : Reduces reducer combine reducer.initial right after) :
    Reduces reducer combine start (left ++ right) (joined combine kept before after) := by
  have batch : reducer.processBatch (left ++ right) =
      reducer.processBatch left ++ reducer.processBatch right := List.map_append
  have ofLeft : ∀ error, .error error ∈ reducer.processBatch left →
      Reduces reducer combine start (left ++ right) (.error error) :=
    fun error one => failed error (batch ▸ List.mem_append_left _ one)
  have ofRight : ∀ error, .error error ∈ reducer.processBatch right →
      Reduces reducer combine start (left ++ right) (.error error) :=
    fun error one => failed error (batch ▸ List.mem_append_right _ one)
  cases first with
  | folded totals each =>
    cases second with
    | folded others eachOther =>
      rw [Reducer.joined, combine_foldl assoc neutral]
      exact folded _ (by rw [batch, each, eachOther, List.map_append])
    | failed error one => exact ofRight error one
  | failed error one =>
    cases second with
    | folded others _ => exact ofLeft error one
    | failed other oneOther =>
      cases kept with
      | left => exact ofLeft error one
      | right => exact ofRight other oneOther

theorem not_failed {start total : α} {documents : List Bytes}
    (h : Reduces reducer combine start documents (.ok total)) {document : Bytes}
    (mem : document ∈ documents) (error : Error) : reducer.process document ≠ .error error := by
  cases h with
  | folded totals each =>
    intro refused
    have : reducer.process document ∈ reducer.processBatch documents := List.mem_map_of_mem mem
    rw [each, refused] at this
    simp at this

end Reduces

/-- The documents that are reached come to what the schedule says, whatever was given up. -/
theorem reduces_reached (assoc : ∀ a b c, combine (combine a b) c = combine a (combine b c))
    (neutral : ∀ a, combine a reducer.initial = a) (schedule : Schedule) :
    Reduces reducer combine reducer.initial schedule.reached
      (reducer.reduceScheduled combine schedule) := by
  induction schedule with
  | chunk reached givenUp => exact .foldlM reducer combine reached reducer.initial
  | join kept left right leftIh rightIh => exact .joined assoc neutral kept leftIh rightIh

/-- Documents are given up after a failure only, so a result that is no failure is of all of them. -/
theorem reduces_documents (assoc : ∀ a b c, combine (combine a b) c = combine a (combine b c))
    (neutral : ∀ a, combine a reducer.initial = a) {schedule : Schedule}
    (justified : schedule.Justified reducer.process) :
    Reduces reducer combine reducer.initial schedule.documents
      (reducer.reduceScheduled combine schedule) := by
  have reached := reduces_reached assoc neutral schedule
  cases result : reducer.reduceScheduled combine schedule with
  | ok total =>
    rw [result] at reached
    have all : schedule.givenUp = [] := by
      refine Decidable.byContradiction fun some => ?_
      obtain ⟨document, mem, error, refused⟩ := justified some
      exact reached.not_failed mem error refused
    rwa [← Schedule.reached_of_givenUp all]
  | error error =>
    rw [result] at reached
    cases reached with
    | failed error one =>
      obtain ⟨document, mem, refused⟩ := List.mem_map.mp one
      refine .failed error (List.mem_map.mpr ⟨document, ?_, refused⟩)
      exact Schedule.mem_documents_of_mem_reached mem

/-- However a batch is cut up, and whatever is given up after a failure: if every document is
reduced, the aggregates are folded in document order, and otherwise one of the failures is the
result, which is the failure itself where all failures are alike. -/
theorem reduceScheduled_eq_fold_or_failure
    (assoc : ∀ a b c, combine (combine a b) c = combine a (combine b c))
    (neutral : ∀ a, combine a reducer.initial = a) (schedule : Schedule)
    (justified : schedule.Justified reducer.process) :
    (∀ totals : List α, reducer.processBatch schedule.documents = totals.map .ok →
      reducer.reduceScheduled combine schedule = .ok (totals.foldl combine reducer.initial)) ∧
    ((∃ error, .error error ∈ reducer.processBatch schedule.documents) →
      ∃ error, .error error ∈ reducer.processBatch schedule.documents ∧
        reducer.reduceScheduled combine schedule = .error error) ∧
    ∀ error, .error error ∈ reducer.processBatch schedule.documents →
      (∀ other, .error other ∈ reducer.processBatch schedule.documents → other = error) →
      reducer.reduceScheduled combine schedule = .error error := by
  have reduces := reduces_documents assoc neutral justified
  generalize reducer.reduceScheduled combine schedule = result at reduces
  cases reduces with
  | folded totals each =>
    have none : ∀ error, .error error ∉ reducer.processBatch schedule.documents := by
      intro error one
      rw [each] at one
      simp at one
    refine ⟨fun others eachOther => ?_, fun ⟨error, one⟩ => absurd one (none error),
      fun error one _ => absurd one (none error)⟩
    have alike : totals = others :=
      (List.map_inj_right fun _ _ => Except.ok.inj).mp (each.symm.trans eachOther)
    rw [alike]
  | failed error one =>
    refine ⟨fun totals each => ?_, fun _ => ⟨error, one, rfl⟩, fun other _ alike => ?_⟩
    · rw [each] at one
      simp at one
    · rw [alike error one]

/-- The document `{"a":0}` in two chunks with an empty one between them, and the same document twice
around `{`, where the last is given up. -/
theorem reduceScheduled_eq_fold_or_failure_counting :
    let count : Rule Nat := ⟨[.container .object], none, none, fun _ _ _ n => ⟨n + 1, []⟩⟩
    let one : Bytes := [0x7B, 0x22, 0x61, 0x22, 0x3A, 0x30, 0x7D]
    let whole : Schedule :=
      .join .left (.chunk [one] []) (.join .right (.chunk [] []) (.chunk [one] []))
    let cut : Schedule := .join .left (.chunk [one] []) (.chunk [[0x7B]] [one])
    ∃ reducer, build .strict 0 [count] = .ok reducer ∧ cut.Justified reducer.process ∧
      reducer.reduceScheduled (· + ·) whole = .ok 2 ∧
      reducer.reduceScheduled (· + ·) cut = .error (.truncatedDocument 1) := by
  intro count one whole cut
  let rule : CompiledRule Nat := ⟨[.anonymous .object], none, none, count.action⟩
  let reducer : Reducer Nat :=
    ⟨⟨.empty, [rule], (List.replicate 17 []).modify 1 (· ++ [0])⟩, 0, .strict⟩
  have tokens : reducer.feedOf one =
      ⟨[⟨⟨.opening .object, [0x7B], 0, 1, false⟩, 1⟩, ⟨⟨.propertyName, [0x61], 1, 4, false⟩, 1⟩,
        ⟨⟨.number, [0x30], 5, 6, false⟩, 1⟩, ⟨⟨.closing .object, [0x7D], 6, 7, false⟩, 0⟩],
        none⟩ := by decide +kernel
  have counted : reducer.process one = .ok 1 := congrArg (reducer.processTokens · 0) tokens
  have tokensCut : reducer.feedOf [0x7B] =
      ⟨[⟨⟨.opening .object, [0x7B], 0, 1, false⟩, 1⟩], none⟩ := by decide +kernel
  have refused : reducer.process [0x7B] = .error (.truncatedDocument 1) :=
    congrArg (reducer.processTokens · 0) tokensCut
  have justified : cut.Justified reducer.process :=
    fun _ => ⟨[0x7B], by simp [cut, Schedule.reached], _, refused⟩
  have neutral : ∀ total, total + reducer.initial = total := Nat.add_zero
  have folds := reduceScheduled_eq_fold_or_failure Nat.add_assoc neutral whole (absurd rfl)
  have fails := reduceScheduled_eq_fold_or_failure Nat.add_assoc neutral cut justified
  refine ⟨reducer, rfl, justified, folds.1 [1, 1] ?_, fails.2.2 _ ?_ fun other mem => ?_⟩
  · simp [processBatch, whole, Schedule.documents, counted]
  · simp [processBatch, cut, Schedule.documents, counted, refused]
  · simpa [processBatch, cut, Schedule.documents, counted, refused] using mem

end PathFold.Reducer
