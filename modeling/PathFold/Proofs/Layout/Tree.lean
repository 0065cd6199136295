import PathFold.Proofs.Layout.Run

/-! Layouts of whole documents. Every document has a layout that begins outside any container with a
value to come and ends there with none to come, and every such layout is that of a document. -/

namespace PathFold.Json

variable {o : Options}

namespace Stage

/-- After the one value of a document. -/
def done : Stage := ⟨.done, []⟩

end Stage

/-- Whether an entry of a container of the given kind may come next. -/
def Expect.takesEntry (expect : Expect) : ContainerKind → Bool
  | .object => expect.takesName
  | .array => expect.takesValue

theorem Stage.takesEntry_inside (kind : ContainerKind) (kinds : List ContainerKind) :
    (Stage.inside kind kinds).expect.takesEntry kind := by
  cases kind <;> rfl

theorem Stage.takesCloser_inside (kind : ContainerKind) (kinds : List ContainerKind) :
    (Stage.inside kind kinds).expect.takesCloser kind := by
  cases kind <;> rfl

theorem Stage.takesEntry_afterComma (trailing : Bool) (kind : ContainerKind)
    (kinds : List ContainerKind) :
    (Stage.afterComma trailing (kind :: kinds)).expect.takesEntry kind := by
  cases kind <;> cases trailing <;> rfl

theorem Stage.takesCloser_afterComma (kind : ContainerKind) (kinds : List ContainerKind) :
    (Stage.afterComma true (kind :: kinds)).expect.takesCloser kind := by
  cases kind <;> rfl

/-- The layout of the end of a container. -/
theorem IsTail.layout {tail rest : Bytes} {kind : ContainerKind} {kinds : List ContainerKind}
    {lexemes : List Lexeme} {final : Stage} (h : IsTail o tail)
    (after : Layout o (.afterValue kinds) rest lexemes final) :
    Layout o (.afterValue (kind :: kinds)) (tail ++ ([kind.closer] ++ rest))
      (.closing kind :: lexemes) final := by
  cases h with
  | plain gap => exact .more (.gap gap) (.closing rfl) after
  | comma trailing gap gap' =>
    have lead : Lead o (IsGap o.comments) (.afterValue (kind :: kinds)) _ _ := .comma gap gap'
    rw [trailing] at lead
    exact .more lead (.closing (Stage.takesCloser_afterComma kind kinds)) after

mutual

/-- A value after a lead, and before the rest of a layout. -/
theorem IsValue.layout {tree : Tree} {bytes lead rest : Bytes} {stage final : Stage}
    {expect : Expect} {kinds : List ContainerKind} {lexemes : List Lexeme} :
    IsValue o tree bytes → expect.takesValue →
      Lead o (IsGap o.comments) stage lead ⟨expect, kinds⟩ →
      Layout o (.afterValue kinds) rest lexemes final →
      Layout o stage (lead ++ (bytes ++ rest)) (tree.lexemes ++ lexemes) final
  | .scalar scalar, takes, passed, after => .more passed (.scalar takes scalar) after
  | @IsValue.empty _ kind _ between, takes, passed, after => by
    have takesCloser := Stage.takesCloser_inside kind kinds
    have closing := Layout.more (.gap between) (.closing takesCloser) after
    have whole := Layout.more passed (.opening kind takes) closing
    simpa only [Tree.lexemes, Entries.lexemes, List.nil_append, List.cons_append,
      List.append_assoc] using whole
  | @IsValue.filled _ kind _ _ _ _ _ _ entry others between, takes, passed, after => by
    have closing := others.layout (between.layout after)
    have inside : Lead o (IsGap o.comments) (.inside kind kinds) [] (.inside kind kinds) :=
      .gap .nil
    have opened := entry.layout (Stage.takesEntry_inside kind kinds) inside closing
    have whole := Layout.more passed (.opening kind takes) opened
    simpa only [Tree.lexemes, Entries.lexemes, List.nil_append, List.cons_append,
      List.append_assoc] using whole

/-- An entry after a lead, and before the rest of a layout. -/
theorem IsEntry.layout {kind : ContainerKind} {name : Option Bytes} {tree : Tree}
    {bytes lead rest : Bytes} {stage final : Stage} {expect : Expect}
    {kinds : List ContainerKind} {lexemes : List Lexeme} :
    IsEntry o kind name tree bytes → expect.takesEntry kind →
      Lead o (IsGap o.comments) stage lead ⟨expect, kinds⟩ →
      Layout o (.afterValue kinds) rest lexemes final →
      Layout o stage (lead ++ (bytes ++ rest))
        (name.toList.map .name ++ (tree.lexemes ++ lexemes)) final
  | .element gap value, takes, passed, after => by
    rw [List.append_assoc, ← List.append_assoc]
    exact value.layout takes (passed.append gap) after
  | .member gap contents before between value, takes, passed, after => by
    have named := value.layout rfl (.colon before between) after
    have whole := Layout.more (passed.append gap) (.name takes contents) named
    simpa only [Option.toList_some, List.map_cons, List.map_nil, List.nil_append, List.cons_append,
      List.append_assoc] using whole

/-- Further entries, after a value and before the rest of a layout. -/
theorem IsMore.layout {kind : ContainerKind} {entries : Entries} {bytes rest : Bytes}
    {final : Stage} {kinds : List ContainerKind} {lexemes : List Lexeme} :
    IsMore o kind entries bytes → Layout o (.afterValue (kind :: kinds)) rest lexemes final →
      Layout o (.afterValue (kind :: kinds)) (bytes ++ rest) (entries.lexemes ++ lexemes) final
  | .nil, after => after
  | .cons gap entry more, after => by
    have comma : Lead o (IsGap o.comments) (.afterValue (kind :: kinds)) _ _ := .comma gap .nil
    have takes := Stage.takesEntry_afterComma o.trailingCommas kind kinds
    have whole := entry.layout takes comma (more.layout after)
    simpa only [Entries.lexemes, List.nil_append, List.cons_append, List.append_assoc] using whole

end

theorem IsDocument.layout {tree : Tree} {bytes : Bytes} (h : IsDocument o tree bytes) :
    Layout o .start bytes tree.lexemes .done := by
  obtain ⟨gap, value, last⟩ := h
  have start : Lead o (IsGap o.comments) .start _ .start := .gap gap
  have final : Layout o (.afterValue []) _ [] .done := .last (.gap last)
  have whole := value.layout (by rfl) start final
  rwa [List.append_nil] at whole

/-- A name comes next only inside an object. -/
def Stage.Coherent (stage : Stage) : Prop :=
  stage.expect.takesName → ∃ outer, stage.kinds = .object :: outer

theorem Lead.coherent {Last : Bytes → Prop} {stage ready : Stage} {lead : Bytes}
    (h : Lead o Last stage lead ready) (coherent : stage.Coherent) : ready.Coherent := by
  cases h with
  | gap => exact coherent
  | colon => rintro ⟨⟩
  | @comma kinds =>
    intro takes
    match kinds with
    | [] | .array :: _ =>
      cases trailing : o.trailingCommas <;> rw [trailing] at takes <;> cases takes
    | .object :: outer => exact ⟨outer, rfl⟩

theorem Writes.coherent {stage next : Stage} {written : Bytes} {lexeme : Lexeme}
    (h : Writes stage written lexeme next) : next.Coherent := by
  intro takes
  have whole (kinds : List ContainerKind) : (Stage.afterValue kinds).expect.takesName = false := by
    cases kinds <;> rfl
  cases h with
  | @opening _ kinds kind =>
    cases kind with
    | object => exact ⟨kinds, rfl⟩
    | array => cases takes
  | closing | scalar =>
    rw [whole] at takes
    cases takes
  | name => cases takes

/-- What may stand after a whole value inside these containers. -/
inductive Outward (o : Options) : List ContainerKind → Bytes → List Lexeme → Prop
  | nil {last} : IsLastGap o.comments last → Outward o [] last []
  | cons {kind kinds entries more tail rest lexemes} : IsMore o kind entries more → IsTail o tail →
      Outward o kinds rest lexemes →
      Outward o (kind :: kinds) (more ++ (tail ++ ([kind.closer] ++ rest)))
        (entries.lexemes ++ (.closing kind :: lexemes))

/-- What may stand at a lexeme that is read in a stage: the rest of a value, of an entry or of a
container, and what may stand after that. -/
inductive Onward (o : Options) : Stage → Bytes → List Lexeme → Prop
  | value {expect kinds tree bytes rest lexemes} : expect.takesValue → IsValue o tree bytes →
      Outward o kinds rest lexemes →
      Onward o ⟨expect, kinds⟩ (bytes ++ rest) (tree.lexemes ++ lexemes)
  | name {expect kinds raw before after tree bytes rest lexemes} : expect.takesName →
      IsContents raw → IsGap o.comments before → IsGap o.comments after → IsValue o tree bytes →
      Outward o kinds rest lexemes →
      Onward o ⟨expect, kinds⟩ (quoted raw ++ (before ++ 0x3A :: (after ++ (bytes ++ rest))))
        (.name raw :: (tree.lexemes ++ lexemes))
  | closer {expect kind kinds rest lexemes} : expect.takesCloser kind →
      Outward o kinds rest lexemes →
      Onward o ⟨expect, kind :: kinds⟩ ([kind.closer] ++ rest) (.closing kind :: lexemes)

/-- What may stand in a stage: the end of the document, or a lead and what may stand after it. -/
inductive Ahead (o : Options) : Stage → Bytes → List Lexeme → Prop
  | last {last} : IsLastGap o.comments last → Ahead o .done last []
  | lead {stage lead ready bytes lexemes} : Lead o (IsGap o.comments) stage lead ready →
      Onward o ready bytes lexemes → Ahead o stage (lead ++ bytes) lexemes

/-- Whether the entries that may come next are those of a container of the given kind. -/
def Expect.Suits (expect : Expect) (kind : ContainerKind) : Prop :=
  (expect.takesValue → kind = .array) ∧ (expect.takesName → kind = .object)

theorem Stage.suits_inside (kind : ContainerKind) (kinds : List ContainerKind) :
    (Stage.inside kind kinds).expect.Suits kind := by
  cases kind <;> simp [inside, Expect.Suits, Expect.takesValue, Expect.takesName]

theorem Stage.suits_afterComma (trailing : Bool) (kind : ContainerKind)
    (kinds : List ContainerKind) :
    (Stage.afterComma trailing (kind :: kinds)).expect.Suits kind := by
  cases kind <;> cases trailing <;>
    simp [afterComma, Expect.Suits, Expect.takesValue, Expect.takesName]

theorem Stage.trailing_of_takesCloser {trailing : Bool} {kind : ContainerKind}
    {kinds : List ContainerKind}
    (h : (Stage.afterComma trailing (kind :: kinds)).expect.takesCloser kind) : trailing := by
  cases trailing with
  | true => rfl
  | false => cases kind <;> cases h

/-- Inside a container, either an entry of it comes next or its closer. -/
theorem Onward.entry_or_closer {expect : Expect} {kind : ContainerKind}
    {kinds : List ContainerKind} {bytes : Bytes} {lexemes : List Lexeme}
    (h : Onward o ⟨expect, kind :: kinds⟩ bytes lexemes) (suits : expect.Suits kind) :
    (∃ name tree entry rest after,
      (∀ gap, IsGap o.comments gap → IsEntry o kind name tree (gap ++ entry)) ∧
      Outward o (kind :: kinds) rest after ∧ bytes = entry ++ rest ∧
      lexemes = name.toList.map .name ++ (tree.lexemes ++ after)) ∨
    ∃ rest after, expect.takesCloser kind ∧ Outward o kinds rest after ∧
      bytes = [kind.closer] ++ rest ∧ lexemes = .closing kind :: after := by
  cases h with
  | value takes value out =>
    obtain rfl := suits.1 takes
    exact .inl ⟨none, _, _, _, _, fun gap blank => .element blank value, out, rfl, rfl⟩
  | name takes contents before after value out =>
    obtain rfl := suits.2 takes
    have member (gap : Bytes) (blank : IsGap o.comments gap) :=
      IsEntry.member blank contents before after value
    exact .inl ⟨some _, _, _, _, _, member, out, by simp, rfl⟩
  | closer takes out => exact .inr ⟨_, _, takes, out, rfl, rfl⟩

/-- After a whole value only the way outward is left. -/
theorem Ahead.outward {kinds : List ContainerKind} {bytes : Bytes} {lexemes : List Lexeme}
    (h : Ahead o (.afterValue kinds) bytes lexemes) : Outward o kinds bytes lexemes := by
  generalize stage : Stage.afterValue kinds = s at h
  cases h with
  | last last =>
    obtain rfl : kinds = [] := congrArg Stage.kinds stage
    exact .nil last
  | lead lead onward =>
    cases lead with
    | gap gap =>
      cases kinds with
      | nil =>
        cases stage
        cases onward <;> contradiction
      | cons kind outer =>
        cases stage
        cases onward with
        | value takes | name takes => cases takes
        | closer _ out => exact .cons .nil (.plain gap) out
    | colon => exact absurd stage (Stage.afterValue_ne (by simp) (by simp))
    | @comma inner gap gap' before after =>
      obtain rfl : kinds = inner := congrArg Stage.kinds stage
      cases kinds with
      | nil => cases stage
      | cons kind outer =>
        rw [List.append_assoc, List.cons_append]
        -- The comma has one more entry after it, or it trails.
        obtain ⟨name, tree, entry, rest, tail, isEntry, out, rfl, rfl⟩ |
            ⟨rest, tail, takes, out, rfl, rfl⟩ :=
          onward.entry_or_closer (Stage.suits_afterComma o.trailingCommas kind outer)
        · cases out with
          | cons others between out =>
            have whole := Outward.cons (.cons before (isEntry gap' after) others) between out
            simpa [Entries.lexemes] using whole
        · have trailing := Stage.trailing_of_takesCloser takes
          have none : IsMore o kind .nil [] := .nil
          have whole := Outward.cons none (.comma trailing before after) out
          simpa [Entries.lexemes] using whole

/-- After the opener of a container comes the rest of the container, and then the way outward. -/
theorem Ahead.container {kind : ContainerKind} {kinds : List ContainerKind} {bytes : Bytes}
    {lexemes : List Lexeme} (h : Ahead o (.inside kind kinds) bytes lexemes) :
    ∃ entries between rest after,
      IsValue o (.container kind entries) (kind.openingByte :: between) ∧
      Outward o kinds rest after ∧ bytes = between ++ rest ∧
      lexemes = entries.lexemes ++ .closing kind :: after := by
  generalize stage : Stage.inside kind kinds = s at h
  cases h with
  | last => cases congrArg Stage.kinds stage
  | @lead _ lead _ _ _ passed onward =>
    cases passed with
    | gap gap =>
      subst stage
      obtain ⟨name, tree, entry, rest, tail, isEntry, out, rfl, rfl⟩ |
          ⟨rest, tail, -, out, rfl, rfl⟩ :=
        onward.entry_or_closer (Stage.suits_inside kind kinds)
      · cases out with
        | cons others between out =>
          refine ⟨_, _, _, _, .filled (isEntry lead gap) others between, out, ?_, ?_⟩
          · simp
          · simp [Entries.lexemes]
      · refine ⟨.nil, _, rest, tail, .empty gap, out, ?_, rfl⟩
        simp
    | colon | comma =>
      have expect := congrArg Stage.expect stage
      cases kind <;> cases expect

/-- After a lexeme comes what its stage says, so at the lexeme stands what its own stage says. -/
theorem Writes.onward {ready next : Stage} {written rest : Bytes} {lexeme : Lexeme}
    {lexemes : List Lexeme} (h : Writes ready written lexeme next) (coherent : ready.Coherent)
    (ahead : Ahead o next rest lexemes) :
    Onward o ready (written ++ rest) (lexeme :: lexemes) := by
  cases h with
  | opening kind takes =>
    obtain ⟨entries, between, rest, after, value, out, rfl, rfl⟩ := ahead.container
    simpa [Tree.lexemes] using Onward.value takes value out
  | closing takes => exact .closer takes ahead.outward
  | scalar takes scalar => exact .value takes (.scalar scalar) ahead.outward
  | name takes contents =>
    obtain ⟨outer, rfl⟩ := coherent takes
    cases ahead with
    | lead lead onward =>
      cases lead with
      | gap =>
        cases onward <;> contradiction
      | colon before after =>
        cases onward with
        | value _ value out =>
          simpa using Onward.name takes contents before after value out
        | name takes | closer takes => cases takes

/-- A layout up to the end of a document has the form of what may stand in its stage. -/
theorem Layout.ahead {stage final : Stage} {bytes : Bytes} {lexemes : List Lexeme}
    (h : Layout o stage bytes lexemes final) (coherent : stage.Coherent) (whole : final = .done) :
    Ahead o stage bytes lexemes := by
  -- The form is built up from the end of the document: the layout after a lexeme has it already.
  induction h with
  | last lead =>
    cases lead with
    | gap last =>
      rw [whole]
      exact .last last
    | colon => cases whole
    | @comma kinds =>
      obtain rfl : kinds = [] := congrArg Stage.kinds whole
      cases trailing : o.trailingCommas <;> rw [trailing] at whole <;> cases whole
  | more lead writes _ ih =>
    have ready := lead.coherent coherent
    exact .lead lead (writes.onward ready (ih writes.coherent whole))

/-- The lexemes of a layout of a whole document are those of a parse tree of its bytes. -/
theorem Layout.isDocument {bytes : Bytes} {lexemes : List Lexeme}
    (h : Layout o .start bytes lexemes .done) :
    ∃ tree, IsDocument o tree bytes ∧ tree.lexemes = lexemes := by
  have ahead := h.ahead (by rintro ⟨⟩) rfl
  generalize start : Stage.start = s at ahead
  cases ahead with
  | last => cases start
  | lead lead onward =>
    cases lead with
    | gap gap =>
      subst start
      cases onward with
      | @value _ _ tree _ _ _ _ value out =>
        cases out with
        | nil last => exact ⟨tree, .intro gap value last, (List.append_nil _).symm⟩
      | name takes => cases takes
    | colon | comma => cases start

end PathFold.Json
