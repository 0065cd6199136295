import PathFold.Path.Frame

/-! Path patterns. A pattern is a list of markers from the root inwards: a marker opens an object or an
array, and a name says under which property the marker after it opens. Compiling a pattern gives one
frame for each container, and records the names. -/

namespace PathFold

open PathFold.Json (ContainerKind)

inductive Marker where
  | container (kind : ContainerKind)
  | name (bytes : Bytes)
  deriving DecidableEq, Repr

namespace Marker

/-- A marker from its text: an opening delimiter stands for its container, and all else is a name. -/
def ofText (text : String) : Marker :=
  if text = ContainerKind.opener .object then .container .object
  else if text = ContainerKind.opener .array then .container .array
  else .name (Bytes.ofText text)

def listing : Marker → String
  | .container kind => kind.opener
  | .name bytes => Text.quoted bytes.toLossyText

end Marker

namespace Pattern

/-- Why a pattern does not compile: it describes no path, or a name does not fit into the table. -/
inductive Refusal where
  | invalid (fault : PatternFault)
  | full (error : Error)
  deriving DecidableEq, Repr

/-- The frames of the markers inside a container of the given kind, or at the root, and the table with
their names recorded, left to right. -/
def framesIn (parent : Option ContainerKind) (markers : List Marker) (table : SymbolTable) :
    Except Refusal (List Frame × SymbolTable) :=
  match markers with
  | [] => .ok ([], table)
  | .container kind :: rest =>
    match framesIn (some kind) rest table with
    | .error refusal => .error refusal
    | .ok (frames, table) => .ok (.anonymous kind :: frames, table)
  | .name bytes :: rest =>
    match parent with
    | none => .error (.invalid .startsWithName)
    | some .array => .error (.invalid .nameInArray)
    | some .object =>
      match table.record bytes with
      | .error error => .error (.full error)
      | .ok (symbol, table) =>
        match rest with
        | .container kind :: rest =>
          match framesIn (some kind) rest table with
          | .error refusal => .error refusal
          | .ok (frames, table) => .ok (.named kind symbol :: frames, table)
        | _ => .error (.invalid .nameOpensNothing)

/-- The frames of a whole pattern, which has at least one. -/
def compile (markers : List Marker) (table : SymbolTable) :
    Except Refusal (List Frame × SymbolTable) :=
  if markers.isEmpty then .error (.invalid .empty) else framesIn none markers table

end Pattern

end PathFold
