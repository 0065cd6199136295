/-! Containers and how they nest. The kinds of the open containers are kept as bits beside the depth:
a set bit is an object. Bits at or above the depth are left over and mean nothing. -/

namespace PathFold.Json

inductive ContainerKind where
  | object
  | array
  deriving DecidableEq, Repr

namespace ContainerKind

def label : ContainerKind → String
  | .object => "Object"
  | .array => "Array"

/-- The delimiter that opens a container, as text. -/
def opener : ContainerKind → String
  | .object => "\x7b"
  | .array => "["

/-- The byte that closes a container. -/
def closer : ContainerKind → UInt8
  | .object => 0x7D
  | .array => 0x5D

end ContainerKind

structure Nesting where
  depth : Nat
  bits : BitVec 64
  deriving DecidableEq, Repr

namespace Nesting

/-- The most containers that can be open at once. -/
def maxDepth : Nat := 64

/-- Outside any container. -/
def empty : Nesting := ⟨0, 0⟩

/-- The kind of the container at a level, the root at level 0. -/
def kindAt (nesting : Nesting) (level : Nat) : ContainerKind :=
  if nesting.bits.getLsbD level then .object else .array

/-- The kinds of the open containers, root first. -/
def kinds (nesting : Nesting) : List ContainerKind := (List.range nesting.depth).map nesting.kindAt

def innermost? (nesting : Nesting) : Option ContainerKind :=
  if nesting.depth = 0 then none else some (nesting.kindAt (nesting.depth - 1))

/-- The bits with the one of a level set for an object and cleared for an array. -/
def markAt (bits : BitVec 64) (level : Nat) : ContainerKind → BitVec 64
  | .object => bits ||| 1#64 <<< level
  | .array => bits &&& ~~~(1#64 <<< level)

/-- One more container inside the innermost, unless there are 64 already. -/
def enter? (nesting : Nesting) (kind : ContainerKind) : Option Nesting :=
  if maxDepth ≤ nesting.depth then none
  else some ⟨nesting.depth + 1, markAt nesting.bits nesting.depth kind⟩

/-- The containers around the innermost. -/
def leave (nesting : Nesting) : Nesting := ⟨nesting.depth - 1, nesting.bits⟩

theorem length_kinds (nesting : Nesting) : nesting.kinds.length = nesting.depth := by
  simp [kinds]

/-- The innermost container is the last of the kinds. -/
theorem innermost?_eq (nesting : Nesting) : nesting.innermost? = nesting.kinds.getLast? := by
  unfold innermost? kinds
  cases h : nesting.depth with
  | zero => rfl
  | succ n => simp [List.range_succ]

theorem getLsbD_markAt (bits : BitVec 64) {level : Nat} (h : level < 64) (kind : ContainerKind)
    {other : Nat} (hother : other < 64) :
    (markAt bits level kind).getLsbD other =
      if other = level then decide (kind = .object) else bits.getLsbD other := by
  have mask : (1#64 <<< level).getLsbD other = decide (other = level) := by
    simp only [BitVec.getLsbD_shiftLeft, BitVec.getLsbD_one]
    by_cases hlt : other < level
    · simp [hlt, Nat.ne_of_lt hlt]
    · by_cases heq : other = level
      · simp [heq, h]
      · have : other - level ≠ 0 := by omega
        simp [heq, this]
  cases kind <;>
    simp only [markAt, BitVec.getLsbD_or, BitVec.getLsbD_and, BitVec.getLsbD_not, mask] <;>
    by_cases heq : other = level <;> simp [heq, hother, h]

/-- Entering a container adds its kind at the inner end. -/
theorem kinds_enter? {nesting inner : Nesting} {kind : ContainerKind}
    (h : nesting.enter? kind = some inner) : inner.kinds = nesting.kinds ++ [kind] := by
  unfold enter? at h
  split at h
  · cases h
  · rename_i hd
    have hd : nesting.depth < 64 := Nat.lt_of_not_le hd
    cases h
    have old : ∀ level ∈ List.range nesting.depth,
        kindAt ⟨nesting.depth + 1, markAt nesting.bits nesting.depth kind⟩ level =
          nesting.kindAt level := by
      intro level hl
      have hl := List.mem_range.1 hl
      simp [kindAt, getLsbD_markAt _ hd _ (Nat.lt_trans hl hd), Nat.ne_of_lt hl]
    have new :
        kindAt ⟨nesting.depth + 1, markAt nesting.bits nesting.depth kind⟩ nesting.depth = kind := by
      cases kind <;> simp [kindAt, getLsbD_markAt _ hd _ hd]
    unfold kinds
    rw [List.range_succ, List.map_append, List.map_congr_left old, List.map_cons, List.map_nil, new]

/-- There is room for one more container below depth 64, and only there. -/
theorem enter?_eq_none_iff (nesting : Nesting) (kind : ContainerKind) :
    nesting.enter? kind = none ↔ 64 ≤ nesting.depth := by
  unfold enter? maxDepth
  split <;> simp_all

theorem kinds_leave (nesting : Nesting) : nesting.leave.kinds = nesting.kinds.dropLast := by
  unfold kinds leave
  cases h : nesting.depth with
  | zero => rfl
  | succ n =>
    simp only [Nat.add_sub_cancel, List.range_succ, List.map_append, List.map_cons, List.map_nil,
      List.dropLast_concat]
    rfl

end Nesting

end PathFold.Json
