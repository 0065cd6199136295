import PathFold.Json.Scalar
import PathFold.Json.Tokenizer
import PathFold.Proofs.Grammar.Lexeme

/-! The grammar of documents. A parse tree keeps what a document says and drops the gaps and the
separators. -/

namespace PathFold.Json

mutual

inductive Tree where
  | scalar (lexeme : Lexeme)
  | container (kind : ContainerKind) (entries : Entries)

/-- What a container holds, in order: values that stand under a name in an object, and under none in
an array. -/
inductive Entries where
  | nil
  | cons (name : Option Bytes) (value : Tree) (rest : Entries)

end

/-- The byte that opens a container. -/
def ContainerKind.openingByte : ContainerKind → UInt8
  | .object => 0x7B
  | .array => 0x5B

namespace Lexeme

def opening (kind : ContainerKind) : Lexeme := ⟨.opening kind, [kind.openingByte]⟩

def closing (kind : ContainerKind) : Lexeme := ⟨.closing kind, [kind.closer]⟩

def name (raw : Bytes) : Lexeme := ⟨.propertyName, raw⟩

end Lexeme

mutual

/-- The lexemes of a tree from left to right. -/
def Tree.lexemes : Tree → List Lexeme
  | .scalar lexeme => [lexeme]
  | .container kind entries => .opening kind :: (entries.lexemes ++ [.closing kind])

def Entries.lexemes : Entries → List Lexeme
  | .nil => []
  | .cons name value rest => name.toList.map .name ++ (value.lexemes ++ rest.lexemes)

end

mutual

/-- How many containers are open at once, at most. -/
def Tree.height : Tree → Nat
  | .scalar _ => 0
  | .container _ entries => entries.height + 1

def Entries.height : Entries → Nat
  | .nil => 0
  | .cons _ value rest => max value.height rest.height

end

/-- What may stand between the last entry of a container and its closer. -/
inductive IsTail (o : Options) : Bytes → Prop
  | plain {gap} : IsGap o.comments gap → IsTail o gap
  | comma {gap gap'} : o.trailingCommas → IsGap o.comments gap → IsGap o.comments gap' →
      IsTail o (gap ++ 0x2C :: gap')

mutual

/-- The bytes that write a tree. -/
inductive IsValue (o : Options) : Tree → Bytes → Prop
  | scalar {bytes lexeme} : IsScalar bytes lexeme → IsValue o (.scalar lexeme) bytes
  | empty {kind gap} : IsGap o.comments gap →
      IsValue o (.container kind .nil) (kind.openingByte :: (gap ++ [kind.closer]))
  | filled {kind name value rest first more tail} : IsEntry o kind name value first →
      IsMore o kind rest more → IsTail o tail →
      IsValue o (.container kind (.cons name value rest))
        (kind.openingByte :: (first ++ (more ++ (tail ++ [kind.closer]))))

/-- The bytes that write an entry of a container of the given kind, with the gap before it. -/
inductive IsEntry (o : Options) : ContainerKind → Option Bytes → Tree → Bytes → Prop
  | element {value gap bytes} : IsGap o.comments gap → IsValue o value bytes →
      IsEntry o .array none value (gap ++ bytes)
  | member {raw value gap before after bytes} : IsGap o.comments gap → IsContents raw →
      IsGap o.comments before → IsGap o.comments after → IsValue o value bytes →
      IsEntry o .object (some raw) value
        (gap ++ (quoted raw ++ (before ++ 0x3A :: (after ++ bytes))))

/-- The bytes that write further entries, each with a comma before it. -/
inductive IsMore (o : Options) : ContainerKind → Entries → Bytes → Prop
  | nil {kind} : IsMore o kind .nil []
  | cons {kind name value rest gap entry more} : IsGap o.comments gap →
      IsEntry o kind name value entry → IsMore o kind rest more →
      IsMore o kind (.cons name value rest) (gap ++ 0x2C :: (entry ++ more))

end

/-- The bytes that write a document, which is one value between gaps. -/
inductive IsDocument (o : Options) : Tree → Bytes → Prop
  | intro {value gap bytes last} : IsGap o.comments gap → IsValue o value bytes →
      IsLastGap o.comments last → IsDocument o value (gap ++ (bytes ++ last))

mutual

/-- That leaves are scalars, and that entries have names in objects and have none in arrays. -/
def Tree.Proper : Tree → Prop
  | .scalar lexeme => lexeme.kind.scalarKind?.isSome
  | .container kind entries => entries.Proper kind

def Entries.Proper : Entries → ContainerKind → Prop
  | .nil, _ => True
  | .cons name value rest, kind =>
    (name.isSome ↔ kind = .object) ∧ value.Proper ∧ rest.Proper kind

end

theorem IsScalar.scalarKind? {bytes : Bytes} {lexeme : Lexeme} (h : IsScalar bytes lexeme) :
    lexeme.kind.scalarKind?.isSome := by
  cases h <;> rfl

mutual

theorem IsValue.proper {o : Options} {tree : Tree} {bytes : Bytes} :
    IsValue o tree bytes → tree.Proper
  | .scalar scalar => by
    rw [Tree.Proper]
    exact scalar.scalarKind?
  | .empty _ => trivial
  | .filled entry more _ => by
    rw [Tree.Proper, Entries.Proper]
    exact ⟨entry.proper.1, entry.proper.2, more.proper⟩

theorem IsEntry.proper {o : Options} {kind : ContainerKind} {name : Option Bytes} {value : Tree}
    {bytes : Bytes} :
    IsEntry o kind name value bytes → (name.isSome ↔ kind = .object) ∧ value.Proper
  | .element _ value => ⟨by simp, value.proper⟩
  | .member _ _ _ _ value => ⟨by simp, value.proper⟩

theorem IsMore.proper {o : Options} {kind : ContainerKind} {entries : Entries} {bytes : Bytes} :
    IsMore o kind entries bytes → entries.Proper kind
  | .nil => trivial
  | .cons _ entry more => by
    rw [Entries.Proper]
    exact ⟨entry.proper.1, entry.proper.2, more.proper⟩

end

/-- The parse tree of a document is proper. -/
theorem IsDocument.proper {o : Options} {tree : Tree} {bytes : Bytes}
    (h : IsDocument o tree bytes) : tree.Proper := by
  obtain ⟨_, value, _⟩ := h
  exact value.proper

end PathFold.Json
