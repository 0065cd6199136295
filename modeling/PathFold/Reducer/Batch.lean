import PathFold.Reducer.Basic

/-! Batches of documents. Each document is reduced by itself from the initial aggregate; the aggregates
are kept apart, or combined into one in document order. -/

namespace PathFold.Reducer

variable {α : Type}

/-- The results in document order. -/
def processBatch (reducer : Reducer α) (documents : List Bytes) : List (Except Error α) :=
  documents.map reducer.process

/-- One aggregate for all documents, starting from the initial one; the first failure wins. -/
def reduceBatch (reducer : Reducer α) (combine : α → α → α) (documents : List Bytes) :
    Except Error α :=
  documents.foldlM
    (fun total document => (reducer.process document).map (combine total)) reducer.initial

end PathFold.Reducer
