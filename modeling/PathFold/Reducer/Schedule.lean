import PathFold.Reducer.Batch

/-! Batches that are cut up. A batch is split into neighbouring chunks, each chunk is reduced by
itself from the initial aggregate, and the results of neighbours are combined in order. A chunk may
be given up before its end. -/

namespace PathFold

inductive Side where
  | left
  | right
  deriving DecidableEq, Repr

/-- How a batch is cut up. A chunk lists the documents it reached and those it gave up; where both
halves of a join fail, the failure of one side is kept. -/
inductive Schedule where
  | chunk (reached givenUp : List Bytes)
  | join (kept : Side) (left right : Schedule)
  deriving DecidableEq, Repr

namespace Schedule

/-- The whole batch, in document order. -/
def documents : Schedule → List Bytes
  | .chunk reached givenUp => reached ++ givenUp
  | .join _ left right => left.documents ++ right.documents

def reached : Schedule → List Bytes
  | .chunk reached _ => reached
  | .join _ left right => left.reached ++ right.reached

def givenUp : Schedule → List Bytes
  | .chunk _ givenUp => givenUp
  | .join _ left right => left.givenUp ++ right.givenUp

/-- A document is given up only once another one has failed, in whatever chunk. -/
def Justified {α : Type} (process : Bytes → Except Error α) (schedule : Schedule) : Prop :=
  schedule.givenUp ≠ [] → ∃ document ∈ schedule.reached, ∃ error, process document = .error error

theorem mem_documents_of_mem_reached {schedule : Schedule} {document : Bytes}
    (h : document ∈ schedule.reached) : document ∈ schedule.documents := by
  induction schedule with
  | chunk taken lost => exact List.mem_append_left lost h
  | join kept left right leftIh rightIh =>
    rcases List.mem_append.mp h with h | h
    · exact List.mem_append_left _ (leftIh h)
    · exact List.mem_append_right _ (rightIh h)

theorem reached_of_givenUp {schedule : Schedule} (h : schedule.givenUp = []) :
    schedule.reached = schedule.documents := by
  induction schedule with
  | chunk taken lost =>
    have none : lost = [] := h
    rw [none]
    exact (List.append_nil taken).symm
  | join kept left right leftIh rightIh =>
    obtain ⟨leftNone, rightNone⟩ := List.append_eq_nil_iff.mp h
    simp only [reached, documents, leftIh leftNone, rightIh rightNone]

end Schedule

namespace Reducer

variable {α : Type}

/-- The result of a join: both halves combined, or the failure of a half. -/
def joined (combine : α → α → α) (kept : Side) (left right : Except Error α) : Except Error α :=
  match left, right, kept with
  | .ok before, .ok after, _ => .ok (combine before after)
  | .error error, .ok _, _ => .error error
  | .ok _, .error error, _ => .error error
  | .error error, .error _, .left => .error error
  | .error _, .error error, .right => .error error

/-- One aggregate for all documents of a batch, however it is cut up. In one chunk it is
`reduceBatch`. -/
def reduceScheduled (reducer : Reducer α) (combine : α → α → α) : Schedule → Except Error α
  | .chunk reached _ => reducer.reduceBatch combine reached
  | .join kept left right =>
    joined combine kept (reducer.reduceScheduled combine left)
      (reducer.reduceScheduled combine right)

end Reducer

end PathFold
