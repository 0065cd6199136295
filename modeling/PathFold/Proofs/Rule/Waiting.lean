import PathFold.Rule.Compiled

/-! What a compiled rule waits for, said without the tests that find it out. -/

namespace PathFold

open PathFold.Json (ContainerKind ScalarKind)

variable {α : Type}

/-- What a frame is apart from its being active. -/
def Frame.place (frame : Frame) : ContainerKind × Symbol := (frame.kind, frame.symbol)

/-- Whether a rule waits for a property of this name and kind inside these frames: its filters let
it pass, the frames are those of the pattern one by one, and all of them are active. -/
def CompiledRule.Awaits (rule : CompiledRule α) (frames : List Frame) (name : Symbol)
    (kind : ScalarKind) : Prop :=
  (∀ symbol ∈ rule.property, symbol = name) ∧ (∀ wanted ∈ rule.kind, wanted = kind) ∧
    frames.map Frame.place = rule.frames.map Frame.place ∧ ∀ frame ∈ frames, frame.active

instance (rule : CompiledRule α) (frames : List Frame) (name : Symbol) (kind : ScalarKind) :
    Decidable (rule.Awaits frames name kind) :=
  inferInstanceAs (Decidable (_ ∧ _))

theorem Frame.allFit_iff (frames patterns : List Frame) : Frame.allFit frames patterns = true ↔
    frames.map Frame.place = patterns.map Frame.place ∧ ∀ frame ∈ frames, frame.active := by
  fun_induction Frame.allFit frames patterns with
  | case1 => simp
  | case2 frame frames pattern patterns ih =>
    simp only [Bool.and_eq_true, ih, Frame.fits, List.map_cons, List.cons.injEq, Frame.place,
      Prod.mk.injEq, List.forall_mem_cons, beq_iff_eq]
    constructor
    · rintro ⟨⟨⟨active, kind⟩, symbol⟩, same, others⟩
      exact ⟨⟨⟨kind, symbol⟩, same⟩, active, others⟩
    · rintro ⟨⟨⟨kind, symbol⟩, same⟩, active, others⟩
      exact ⟨⟨⟨active, kind⟩, symbol⟩, same, others⟩
  | case3 frames patterns noNil noCons =>
    cases frames with
    | nil =>
      cases patterns with
      | nil => exact (noNil rfl rfl).elim
      | cons => simp
    | cons frame frames =>
      cases patterns with
      | nil => simp
      | cons pattern patterns => exact (noCons _ _ _ _ rfl rfl).elim

/-- A rule accepts the properties that it waits for. -/
theorem CompiledRule.accepts_iff_awaits (rule : CompiledRule α) (path : Path) (name : Symbol)
    (kind : ScalarKind) :
    rule.accepts path name kind = true ↔ rule.Awaits path.frames name kind := by
  simp only [accepts, Awaits, Path.fits, Bool.and_eq_true, Frame.allFit_iff,
    Option.all_eq_true, beq_iff_eq, Option.mem_def, and_assoc]

end PathFold
