import PathFold.Except
import PathFold.Proofs.Rule.Naming
import PathFold.Proofs.Rule.Seen

/-! Patterns that describe containers, and those that do not. A pattern describes containers if it
is written item by item, with names right inside objects only. Where it goes wrong is the first
place that no item can be read from, unless a name before that does not fit into the table. -/

namespace PathFold

open PathFold.Json (ContainerKind)
open SymbolTable (ofNames Fits)

/-- The marker of a container, after its name if it has one. -/
def Item.markers (item : Item) : List Marker :=
  item.name.toList.map .name ++ [.container item.kind]

namespace Pattern

/-- How a pattern of these containers is written. -/
def written (items : List Item) : List Marker := items.flatMap Item.markers

/-- Whether names stand right inside objects only, within a container of the given kind or outside
any. -/
def nested : Option ContainerKind → List Item → Bool
  | _, [] => true
  | outer, item :: rest =>
    (item.name.isNone || outer == some .object) && nested (some item.kind) rest

/-- The kind of the container that the last item asks for, or what is outside the first. -/
def innermost : Option ContainerKind → List Item → Option ContainerKind
  | outer, [] => outer
  | _, item :: rest => innermost (some item.kind) rest

/-- That markers are a pattern of these containers. -/
structure Describes (markers : List Marker) (items : List Item) : Prop where
  nonempty : items ≠ []
  nested : nested none items
  written : markers = written items

/-- What keeps markers from going on with an item inside a container of the given kind or outside
any. A name that opens nothing is recorded before that is seen. -/
inductive Spoils : Option ContainerKind → List Marker → List Bytes → PatternFault → Prop
  | startsWithName {bytes rest} : Spoils none (.name bytes :: rest) [] .startsWithName
  | nameInArray {bytes rest} : Spoils (some .array) (.name bytes :: rest) [] .nameInArray
  | nameOpensNothing {bytes rest} : (∀ kind, rest.head? ≠ some (.container kind)) →
      Spoils (some .object) (.name bytes :: rest) [bytes] .nameOpensNothing

/-- What keeps markers from being compiled when some names are known: after some items, something
that is no item or a name for which there is no room. -/
inductive Refuses (outer : Option ContainerKind) (known : List Bytes) (markers : List Marker) :
    Refusal → Prop
  | spoilt (front) {rest last fault} : nested outer front → markers = written front ++ rest →
      Spoils (innermost outer front) rest last fault →
      Fits (known ++ (names (written front) ++ last)) → Refuses outer known markers (.invalid fault)
  | full (front) {bytes rest} : nested outer front →
      markers = written front ++ .name bytes :: rest →
      innermost outer front = some .object → Fits (known ++ names (written front)) →
      ¬ Fits (known ++ (names (written front) ++ [bytes])) →
      Refuses outer known markers (.full (.symbolCapacity SymbolTable.capacity))

theorem written_anonymous (kind : ContainerKind) (items : List Item) :
    written (⟨none, kind⟩ :: items) = .container kind :: written items := rfl

theorem written_named (bytes : Bytes) (kind : ContainerKind) (items : List Item) :
    written (⟨some bytes, kind⟩ :: items) = .name bytes :: .container kind :: written items := rfl

theorem names_container (kind : ContainerKind) (markers : List Marker) :
    names (.container kind :: markers) = names markers := rfl

theorem names_name (bytes : Bytes) (markers : List Marker) :
    names (.name bytes :: markers) = bytes :: names markers := rfl

/-- Reading the items of a pattern undoes writing them. -/
theorem items_written (list : List Item) : items (written list) = list := by
  induction list with
  | nil => rfl
  | cons item list ih =>
    obtain ⟨_ | bytes, kind⟩ := item
    · rw [written_anonymous, items, ih]
    · rw [written_named, items, ih]

theorem Describes.items_eq {markers : List Marker} {list : List Item} (h : Describes markers list) :
    items markers = list := by
  rw [h.written, items_written]

theorem framesIn_container (outer : Option ContainerKind) (kind : ContainerKind)
    (rest : List Marker) (table : SymbolTable) :
    framesIn outer (.container kind :: rest) table =
      (framesIn (some kind) rest table).map fun made => (.anonymous kind :: made.1, made.2) := by
  rw [framesIn]
  cases framesIn (some kind) rest table <;> rfl

theorem framesIn_named {bytes : Bytes} {table after : SymbolTable} {symbol : Symbol}
    (taken : table.record bytes = .ok (symbol, after)) (kind : ContainerKind)
    (rest : List Marker) :
    framesIn (some .object) (.name bytes :: .container kind :: rest) table =
      (framesIn (some kind) rest after).map fun made => (.named kind symbol :: made.1, made.2) := by
  rw [framesIn, taken]
  dsimp only
  cases framesIn (some kind) rest after <;> rfl

theorem framesIn_dangling {bytes : Bytes} {table after : SymbolTable} {symbol : Symbol}
    {rest : List Marker} (taken : table.record bytes = .ok (symbol, after))
    (opensNothing : ∀ kind, rest.head? ≠ some (.container kind)) :
    framesIn (some .object) (.name bytes :: rest) table = .error (.invalid .nameOpensNothing) := by
  rw [framesIn, taken]
  cases rest with
  | nil => rfl
  | cons marker rest =>
    cases marker with
    | name _ => rfl
    | container kind => exact absurd rfl (opensNothing kind)

/-- Items are passed with their names recorded, if these fit. What comes of the pattern is up to the
markers after them. -/
theorem framesIn_written {outer : Option ContainerKind} {front : List Item} {known : List Bytes}
    (h : nested outer front) (fits : Fits (known ++ names (written front))) (rest : List Marker) :
    (framesIn outer (written front ++ rest) (ofNames known)).map Prod.snd =
      (framesIn (innermost outer front) rest (ofNames (known ++ names (written front)))).map
        Prod.snd := by
  induction front generalizing outer known with
  | nil => rw [innermost, written, List.flatMap_nil, names, List.filterMap_nil, List.append_nil,
      List.nil_append]
  | cons item front ih =>
    obtain ⟨named, h⟩ := Bool.and_eq_true_iff.1 h
    obtain ⟨_ | bytes, kind⟩ := item
    · rw [written_anonymous, List.cons_append, framesIn_container]
      exact (Except.map_map ..).trans (ih h fits)
    · obtain rfl : outer = some .object := by simpa using named
      rw [written_named, names_name, names_container, List.append_cons] at fits
      obtain ⟨symbol, taken⟩ := SymbolTable.record_of_fits fits.of_append
      rw [written_named, List.cons_append, List.cons_append, framesIn_named taken, names_name,
        names_container, List.append_cons known bytes (names _)]
      exact (Except.map_map ..).trans (ih h fits)

/-- A pattern written item by item compiles, if its names fit. -/
theorem exists_framesIn {outer : Option ContainerKind} {list : List Item} {known : List Bytes}
    (h : nested outer list) (fits : Fits (known ++ names (written list))) :
    ∃ frames, framesIn outer (written list) (ofNames known) =
      .ok (frames, ofNames (known ++ names (written list))) := by
  have passed := framesIn_written h fits []
  rw [List.append_nil, framesIn] at passed
  obtain ⟨⟨frames, table⟩, made, rfl⟩ := Except.map_eq_ok_iff.1 passed
  exact ⟨frames, made⟩

/-- What is not compiled is refused for what is wrong with it first. -/
theorem Refuses.framesIn_eq {outer : Option ContainerKind} {known : List Bytes}
    {markers : List Marker} {refusal : Refusal} (h : Refuses outer known markers refusal) :
    framesIn outer markers (ofNames known) = .error refusal := by
  cases h with
  | spoilt front nested same spoils fits =>
    rw [← List.append_assoc] at fits
    refine (Except.map_eq_error_iff (f := Prod.snd)).1 ?_
    rw [same, framesIn_written nested fits.of_append]
    generalize innermost outer front = inner at spoils
    cases spoils with
    | startsWithName | nameInArray => rfl
    | @nameOpensNothing bytes rest opensNothing =>
      obtain ⟨symbol, taken⟩ := SymbolTable.record_of_fits fits
      rw [framesIn_dangling taken opensNothing]
      rfl
  | full front nested same inner fits tooMany =>
    rw [← List.append_assoc] at tooMany
    refine (Except.map_eq_error_iff (f := Prod.snd)).1 ?_
    rw [same, framesIn_written nested fits, inner, framesIn,
      SymbolTable.record_of_not_fits fits tooMany]
    rfl

theorem Refuses.anonymous {outer : Option ContainerKind} {kind : ContainerKind}
    {known : List Bytes} {rest : List Marker} {refusal : Refusal}
    (h : Refuses (some kind) known rest refusal) :
    Refuses outer known (.container kind :: rest) refusal := by
  cases h with
  | spoilt front nested same spoils fits =>
    exact .spoilt (⟨none, kind⟩ :: front) nested (congrArg _ same) spoils fits
  | full front nested same inner fits tooMany =>
    exact .full (⟨none, kind⟩ :: front) nested (congrArg _ same) inner fits tooMany

theorem Refuses.named {bytes : Bytes} {kind : ContainerKind} {known : List Bytes}
    {rest : List Marker} {refusal : Refusal}
    (h : Refuses (some kind) (known ++ [bytes]) rest refusal) :
    Refuses (some .object) known (.name bytes :: .container kind :: rest) refusal := by
  cases h with
  | spoilt front nested same spoils fits =>
    refine .spoilt (⟨some bytes, kind⟩ :: front) nested (congrArg (_ :: _ :: ·) same) spoils ?_
    rwa [written_named, names_name, names_container, List.cons_append, List.append_cons]
  | full front nested same inner fits tooMany =>
    refine .full (⟨some bytes, kind⟩ :: front) nested (congrArg (_ :: _ :: ·) same) inner ?_ ?_
    · rwa [written_named, names_name, names_container, List.append_cons]
    · rwa [written_named, names_name, names_container, List.cons_append, List.append_cons]

/-- A name is refused where none may stand; where one may, it is refused if it does not fit. -/
theorem refuses_name {outer : Option ContainerKind} {known : List Bytes} {bytes : Bytes}
    {rest : List Marker} (fits : Fits known)
    (h : outer ≠ some .object ∨ ¬ Fits (known ++ [bytes])) :
    ∃ refusal, Refuses outer known (.name bytes :: rest) refusal := by
  have room : Fits (known ++ (names (written []) ++ [])) := by simpa [names, written] using fits
  match outer, h with
  | none, _ => exact ⟨_, .spoilt [] rfl rfl .startsWithName room⟩
  | some .array, _ => exact ⟨_, .spoilt [] rfl rfl .nameInArray room⟩
  | some .object, .inr tooMany =>
    exact ⟨_, .full [] rfl rfl rfl (by simpa [names, written] using fits) tooMany⟩

/-- Markers are a pattern whose names fit, or there is something wrong with them. -/
theorem written_or_refuses (outer : Option ContainerKind) (markers : List Marker)
    {known : List Bytes} (fits : Fits known) :
    (∃ list, nested outer list ∧ markers = written list ∧ Fits (known ++ names markers)) ∨
      ∃ refusal, Refuses outer known markers refusal := by
  induction markers using items.induct generalizing outer known with
  | case1 => exact .inl ⟨[], rfl, rfl, by simpa [names] using fits⟩
  | case2 kind rest ih =>
    rcases ih (some kind) fits with ⟨list, nested, rfl, fits⟩ | ⟨refusal, refuses⟩
    · exact .inl ⟨⟨none, kind⟩ :: list, nested, rfl, fits⟩
    · exact .inr ⟨refusal, refuses.anonymous⟩
  | case3 bytes kind rest ih =>
    by_cases allowed : outer = some .object ∧ Fits (known ++ [bytes])
    · obtain ⟨rfl, taken⟩ := allowed
      rcases ih (some kind) taken with ⟨list, nested, rfl, fits⟩ | ⟨refusal, refuses⟩
      · refine .inl ⟨⟨some bytes, kind⟩ :: list, nested, rfl, ?_⟩
        rwa [names_name, names_container, List.append_cons]
      · exact .inr ⟨refusal, refuses.named⟩
    · exact .inr (refuses_name fits (Decidable.not_and_iff_or_not.1 allowed))
  | case4 bytes rest opensNothing _ =>
    by_cases allowed : outer = some .object ∧ Fits (known ++ [bytes])
    · obtain ⟨rfl, taken⟩ := allowed
      refine .inr ⟨_, .spoilt [] rfl rfl (.nameOpensNothing ?_) taken⟩
      intro kind head
      obtain ⟨rest, rfl⟩ := List.head?_eq_some_iff.1 head
      exact opensNothing kind rest rfl
    · exact .inr (refuses_name fits (Decidable.not_and_iff_or_not.1 allowed))

/-- Where something is no item, the markers are no pattern, however the items before it are read. -/
theorem Spoils.not_written {outer : Option ContainerKind} {front list : List Item}
    {rest : List Marker} {last : List Bytes} {fault : PatternFault}
    (h : Spoils (innermost outer front) rest last fault) (nested : nested outer list) :
    written list ≠ written front ++ rest := by
  intro same
  induction front generalizing outer list with
  | nil =>
    rw [innermost] at h
    rw [show written [] ++ rest = rest from rfl] at same
    match list with
    | [] =>
      cases same
      cases h
    | ⟨none, kind⟩ :: _ =>
      cases same
      cases h
    | ⟨some bytes, kind⟩ :: list =>
      obtain ⟨named, -⟩ := Bool.and_eq_true_iff.1 nested
      obtain rfl : outer = some .object := by simpa using named
      cases same
      cases h with
      | nameOpensNothing opensNothing => exact opensNothing kind rfl
  | cons item front ih =>
    match list, item with
    | [], ⟨none, _⟩ | [], ⟨some _, _⟩ => cases same
    | ⟨none, _⟩ :: _, ⟨some _, _⟩ | ⟨some _, _⟩ :: _, ⟨none, _⟩ => cases same
    | ⟨none, kind⟩ :: list, ⟨none, kind'⟩ =>
      obtain ⟨first, later⟩ := List.cons.inj same
      cases first
      exact ih h (Bool.and_eq_true_iff.1 nested).2 later
    | ⟨some bytes, kind⟩ :: list, ⟨some bytes', kind'⟩ =>
      obtain ⟨first, later⟩ := List.cons.inj (List.cons.inj same).2
      cases first
      exact ih h (Bool.and_eq_true_iff.1 nested).2 later

end Pattern

end PathFold
