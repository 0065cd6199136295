import PathFold.Path.Stack

/-! Paths over whole histories. Frames are pushed, popped and invalidated in any order, some of it in
vain. What a path holds after all that is told by the calls alone: the frames that were pushed and
have not been popped since, each invalidated if a call since its own push has asked for it. -/

namespace PathFold.Path

/-- What a path can be asked to do. -/
inductive Call where
  | push (frame : Frame)
  | pop
  | invalidate (index : Nat)
  | invalidateParent
  deriving DecidableEq, Repr

/-- Whether a call succeeds, and the path after it. An error leaves the path as it is. -/
def answer (path : Path) : Call → Bool × Path
  | .push frame =>
    match path.push frame with
    | .ok inner => (true, inner)
    | .error _ => (false, path)
  | .pop =>
    match path.pop with
    | .ok (_, outer) => (true, outer)
    | .error _ => (false, path)
  | .invalidate index => path.invalidate index
  | .invalidateParent => path.invalidateParent

/-- The path after some calls. -/
def afterAll (path : Path) (calls : List Call) : Path :=
  calls.foldl (fun path call => (path.answer call).2) path

/-- The path that was empty before these calls. -/
def history (limit : Nat) (calls : List Call) : Path := (empty limit).afterAll calls

/-- How many frames there are after a call, if there may be no more than `bound`. -/
def Call.heightAfter (bound height : Nat) : Call → Nat
  | .push _ => if height < bound then height + 1 else height
  | .pop => height - 1
  | .invalidate _ | .invalidateParent => height

/-- The calls in order, each with how many frames there are when it is made. -/
def timeline (bound height : Nat) : List Call → List (Nat × Call)
  | [] => []
  | call :: calls => (height, call) :: timeline bound (call.heightAfter bound height) calls

/-- Whether a call that is made at this height asks for the frame at `index` to be invalidated: it
names the index, or the frame is the innermost one. -/
def Call.invalidates (index height : Nat) (call : Call) : Bool :=
  call = .invalidate index || (call = .invalidateParent && height = index + 1)

/-- What these calls leave of a frame that was pushed at `index` before them. It is gone once a frame
is popped while it is the innermost one. -/
def since (later : List (Nat × Call)) (index : Nat) (frame : Frame) : Option Frame :=
  if (index + 1, .pop) ∈ later then none
  else some { frame with
    active := frame.active && !later.any fun (height, call) => call.invalidates index height }

/-- What is left of the frames that the calls push, as far as there is room for them. -/
def standing (bound : Nat) : List (Nat × Call) → List Frame
  | [] => []
  | (height, .push frame) :: later =>
    (if height < bound then since later height frame else none).toList ++ standing bound later
  | _ :: later => standing bound later

section Answers

variable {path : Path}

theorem invalidate_of_lt {index : Nat} (inside : index < path.depth) :
    path.invalidate index = (true, ⟨Frame.invalidateAt path.frames index, path.limit⟩) := by
  have here : index < path.view.depth := inside
  rw [invalidate, View.invalidate, if_pos here]
  rfl

theorem invalidate_of_le {index : Nat} (outside : path.depth ≤ index) :
    path.invalidate index = (false, path) := by
  have past : ¬ index < path.view.depth := Nat.not_lt_of_le outside
  rw [invalidate, View.invalidate, if_neg past]
  rfl

theorem invalidateParent_of_eq_zero (outside : path.depth = 0) :
    path.invalidateParent = (false, path) := by
  have none : path.view.depth = 0 := outside
  rw [invalidateParent, View.invalidateParent, if_pos none]
  rfl

theorem invalidateParent_of_eq_succ {index : Nat} (inside : path.depth = index + 1) :
    path.invalidateParent = path.invalidate index := by
  have some : path.view.depth = index + 1 := inside
  rw [invalidateParent, View.invalidateParent, if_neg (by omega), some]
  rfl

/-- All that a call can do to a path. -/
inductive Answers (path : Path) : Call → Bool × Path → Prop
  | pushed (frame : Frame) : path.depth < path.limit →
      Answers path (.push frame) (true, ⟨path.frames ++ [frame], path.limit⟩)
  | full (frame : Frame) : path.limit ≤ path.depth → Answers path (.push frame) (false, path)
  | popped {outer : List Frame} {frame : Frame} : path.frames = outer ++ [frame] →
      Answers path .pop (true, ⟨outer, path.limit⟩)
  | exhausted : path.depth = 0 → Answers path .pop (false, path)
  | invalidated {index : Nat} : index < path.depth → Answers path (.invalidate index)
      (true, ⟨Frame.invalidateAt path.frames index, path.limit⟩)
  | missed {index : Nat} : path.depth ≤ index → Answers path (.invalidate index) (false, path)
  | invalidatedParent {index : Nat} : path.depth = index + 1 → Answers path .invalidateParent
      (true, ⟨Frame.invalidateAt path.frames index, path.limit⟩)
  | orphaned : path.depth = 0 → Answers path .invalidateParent (false, path)

theorem answers (path : Path) (call : Call) : path.Answers call (path.answer call) := by
  cases call with
  | push frame =>
    simp only [answer]
    rcases Nat.lt_or_ge path.depth path.limit with room | full
    · rw [push_of_lt room]
      exact .pushed frame room
    · rw [push_of_le full]
      exact .full frame full
  | pop =>
    simp only [answer]
    cases popped : path.pop with
    | ok result =>
      obtain ⟨frame, outer⟩ := result
      obtain ⟨frames, limit⟩ := pop_eq_ok popped
      have same : outer = ⟨outer.frames, path.limit⟩ := by rw [← limit]
      rw [same]
      exact .popped frames
    | error error => exact .exhausted (congrArg List.length (pop_eq_error_iff.1 popped).1)
  | invalidate index =>
    simp only [answer]
    rcases Nat.lt_or_ge index path.depth with inside | outside
    · rw [invalidate_of_lt inside]
      exact .invalidated inside
    · rw [invalidate_of_le outside]
      exact .missed outside
  | invalidateParent =>
    simp only [answer]
    cases depth : path.depth with
    | zero =>
      rw [invalidateParent_of_eq_zero depth]
      exact .orphaned depth
    | succ index =>
      rw [invalidateParent_of_eq_succ depth, invalidate_of_lt (by omega)]
      exact .invalidatedParent depth

/-- Only a call that succeeds changes a path. -/
theorem answer_of_fails {call : Call} (fails : (path.answer call).1 = false) :
    (path.answer call).2 = path := by
  have answers := path.answers call
  generalize path.answer call = answer at answers fails
  cases answers with
  | full | exhausted | missed | orphaned => rfl
  | pushed | popped | invalidated | invalidatedParent => cases fails

theorem depth_answer (path : Path) (call : Call) :
    (path.answer call).2.depth = call.heightAfter path.limit path.depth := by
  have answers := path.answers call
  generalize path.answer call = answer at answers
  cases answers with
  | pushed frame room => simp [depth, Call.heightAfter, show path.frames.length < path.limit from room]
  | full frame full => exact (if_neg (Nat.not_lt_of_le full)).symm
  | popped frames => simp [depth, Call.heightAfter, frames]
  | exhausted none => simp [Call.heightAfter, none]
  | invalidated | invalidatedParent => exact Frame.length_invalidateAt _ _
  | missed | orphaned => rfl

theorem limit_answer (path : Path) (call : Call) : (path.answer call).2.limit = path.limit := by
  have answers := path.answers call
  generalize path.answer call = answer at answers
  cases answers <;> rfl

end Answers

/-- What these calls leave of frames that were there before them. -/
def surviving (later : List (Nat × Call)) (frames : List Frame) : List Frame :=
  (frames.mapIdx (since later)).filterMap id

section Surviving

variable {later : List (Nat × Call)} {frames : List Frame} {height : Nat} {call : Call}

theorem surviving_nil (frames : List Frame) : surviving [] frames = frames := by
  have kept : since [] = fun _ frame => some frame := by
    funext index frame
    simp [since]
  simp [surviving, kept, List.mapIdx_eq_zipIdx_map]

theorem surviving_concat (later : List (Nat × Call)) (frames : List Frame) (frame : Frame) :
    surviving later (frames ++ [frame]) =
      surviving later frames ++ (since later frames.length frame).toList := by
  cases h : since later frames.length frame <;>
    simp [surviving, List.mapIdx_append, List.mapIdx_cons, h]

/-- A call that is not the frame's own pop at most invalidates the frame. -/
theorem since_cons {index : Nat} (frame : Frame) (kept : (height, call) ≠ (index + 1, .pop)) :
    since ((height, call) :: later) index frame =
      since later index (if call.invalidates index height then frame.invalidate else frame) := by
  have same : ((index + 1, Call.pop) ∈ (height, call) :: later) ↔ (index + 1, .pop) ∈ later := by
    simp [List.mem_cons, kept.symm]
  unfold since
  simp only [same, List.any_cons]
  cases call.invalidates index height <;> simp [Frame.invalidate]

theorem surviving_cons (kept : ∀ index < frames.length, (height, call) ≠ (index + 1, .pop)) :
    surviving ((height, call) :: later) frames =
      surviving later (frames.mapIdx fun index frame =>
        if call.invalidates index height then frame.invalidate else frame) := by
  unfold surviving
  rw [List.mapIdx_mapIdx]
  congr 1
  rw [List.mapIdx_eq_mapIdx_iff]
  exact fun index inside => since_cons frames[index] (kept index inside)

/-- Before a call that asks for no frame to be invalidated it is as if there were no call. -/
theorem surviving_cons_of_not (kept : ∀ index < frames.length, (height, call) ≠ (index + 1, .pop))
    (not : ∀ index < frames.length, call.invalidates index height = false) :
    surviving ((height, call) :: later) frames = surviving later frames := by
  rw [surviving_cons kept]
  congr 1
  refine List.ext_getElem (by simp) fun index _ inside => ?_
  simp [not index inside]

/-- A call that asks for the frame at `place` to be invalidated leaves the others. -/
theorem surviving_cons_of_invalidates (place : Nat)
    (kept : ∀ index < frames.length, (height, call) ≠ (index + 1, .pop))
    (only : ∀ index, call.invalidates index height = true ↔ place = index) :
    surviving ((height, call) :: later) frames =
      surviving later (Frame.invalidateAt frames place) := by
  rw [surviving_cons kept]
  congr 1
  refine List.ext_getElem (by simp) fun index _ _ => ?_
  simp [Frame.invalidateAt, List.getElem_modify, only]

end Surviving

/-- What the path holds and what is still to be pushed are told by the same rule before a call and
after it. -/
theorem frames_answer (path : Path) (call : Call) (later : List (Nat × Call)) :
    surviving later (path.answer call).2.frames ++ standing path.limit later =
      surviving ((path.depth, call) :: later) path.frames ++
        standing path.limit ((path.depth, call) :: later) := by
  have answers := path.answers call
  generalize path.answer call = answer at answers
  cases answers with
  | pushed frame room =>
    rw [surviving_cons_of_not (fun _ _ => by simp) fun _ _ => rfl, surviving_concat, standing,
      if_pos room, List.append_assoc]
    rfl
  | full frame full =>
    rw [surviving_cons_of_not (fun _ _ => by simp) fun _ _ => rfl, standing,
      if_neg (Nat.not_lt_of_le full)]
    rfl
  | @popped outer frame frames =>
    -- The last frame is gone, and the frames before it are of no concern to the call.
    have depth : path.depth = outer.length + 1 := by simp [depth, frames]
    have gone : since ((path.depth, .pop) :: later) outer.length frame = none :=
      if_pos (by simp [depth])
    have before : surviving ((path.depth, .pop) :: later) outer = surviving later outer :=
      surviving_cons_of_not (fun index inside => by simp [depth]; omega) fun _ _ => rfl
    rw [frames, surviving_concat, gone, before]
    simp [standing]
  | exhausted none =>
    rw [surviving_cons_of_not (fun _ _ => by simp [none]) fun _ _ => rfl]
    rfl
  | @invalidated place inside =>
    rw [surviving_cons_of_invalidates place (fun _ _ => by simp) (by simp [Call.invalidates])]
    rfl
  | @missed place outside =>
    have others : ∀ index < path.frames.length,
        Call.invalidates index path.depth (.invalidate place) = false := by
      intro index inside
      have differ : place ≠ index := Nat.ne_of_gt (Nat.lt_of_lt_of_le inside outside)
      simp [Call.invalidates, differ]
    rw [surviving_cons_of_not (fun _ _ => by simp) others]
    rfl
  | @invalidatedParent place inside =>
    rw [surviving_cons_of_invalidates place (fun _ _ => by simp)
      (by simp [Call.invalidates, inside])]
    rfl
  | orphaned none =>
    rw [surviving_cons_of_not (fun _ _ => by simp) fun _ _ => by simp [Call.invalidates, none]]
    rfl

theorem frames_afterAll (path : Path) (calls : List Call) :
    (path.afterAll calls).frames =
      surviving (timeline path.limit path.depth calls) path.frames ++
        standing path.limit (timeline path.limit path.depth calls) := by
  induction calls generalizing path with
  | nil => simp [afterAll, timeline, standing, surviving_nil]
  | cons call calls ih =>
    have rest := ih (path.answer call).2
    rw [limit_answer, depth_answer] at rest
    rw [timeline, ← frames_answer]
    exact rest

theorem limit_afterAll (path : Path) (calls : List Call) :
    (path.afterAll calls).limit = path.limit := by
  induction calls generalizing path with
  | nil => rfl
  | cons call calls ih => exact (ih _).trans (path.limit_answer call)

theorem depth_afterAll (path : Path) (calls : List Call) :
    (path.afterAll calls).depth = calls.foldl (Call.heightAfter path.limit) path.depth := by
  induction calls generalizing path with
  | nil => rfl
  | cons call calls ih =>
    have rest := ih (path.answer call).2
    rwa [limit_answer, depth_answer] at rest

theorem depth_afterAll_le {path : Path} (within : path.depth ≤ path.limit) (calls : List Call) :
    (path.afterAll calls).depth ≤ path.limit := by
  induction calls generalizing path with
  | nil => exact within
  | cons call calls ih =>
    have next : (path.answer call).2.depth ≤ (path.answer call).2.limit := by
      rw [depth_answer, limit_answer]
      cases call <;> simp only [Call.heightAfter] <;> grind
    exact limit_answer path call ▸ ih next

section Failures

variable {path : Path}

theorem push_fails_iff (within : path.depth ≤ path.limit) (frame : Frame) :
    (path.answer (.push frame)).1 = false ↔ path.depth = path.limit := by
  have answers := path.answers (.push frame)
  generalize path.answer (.push frame) = answer at answers
  cases answers with
  | pushed _ room => simp [Nat.ne_of_lt room]
  | full _ full => simp [Nat.le_antisymm within full]

theorem pop_fails_iff : (path.answer .pop).1 = false ↔ path.depth = 0 := by
  have answers := path.answers .pop
  generalize path.answer .pop = answer at answers
  cases answers with
  | popped frames => simp [depth, frames]
  | exhausted none => simp [none]

theorem invalidate_fails_iff (index : Nat) :
    (path.answer (.invalidate index)).1 = false ↔ path.frames[index]? = none := by
  have answers := path.answers (.invalidate index)
  generalize path.answer (.invalidate index) = answer at answers
  have outside : path.frames[index]? = none ↔ path.depth ≤ index := List.getElem?_eq_none_iff
  rw [outside]
  cases answers with
  | invalidated inside => simpa using inside
  | missed outside => simpa using outside

theorem invalidateParent_fails_iff :
    (path.answer .invalidateParent).1 = false ↔ path.frames = [] := by
  have answers := path.answers .invalidateParent
  generalize path.answer .invalidateParent = answer at answers
  have outside : path.frames = [] ↔ path.depth = 0 := List.length_eq_zero_iff.symm
  rw [outside]
  cases answers with
  | invalidatedParent inside => simp [inside]
  | orphaned none => simp [none]

end Failures

/-- After any calls a path holds what the calls have left standing, and what a further call comes to
is told by how many frames there are. A call that fails changes nothing. -/
theorem frames_history (limit : Nat) (calls : List Call) :
    let bound := min limit 16
    let path := history limit calls
    path.frames = standing bound (timeline bound 0 calls) ∧
    path.depth = calls.foldl (Call.heightAfter bound) 0 ∧
    path.depth ≤ bound ∧
    (∀ frame, (path.answer (.push frame)).1 = false ↔ path.depth = bound) ∧
    ((path.answer .pop).1 = false ↔ path.depth = 0) ∧
    (∀ index, (path.answer (.invalidate index)).1 = false ↔ path.frames[index]? = none) ∧
    ((path.answer .invalidateParent).1 = false ↔ path.frames = []) ∧
    ∀ call, (path.answer call).1 = false → (path.answer call).2 = path := by
  have bound : (history limit calls).limit = min limit 16 := limit_afterAll _ calls
  have outside : (empty limit).depth ≤ (empty limit).limit := Nat.zero_le _
  have within : (history limit calls).depth ≤ min limit 16 := depth_afterAll_le outside calls
  refine ⟨frames_afterAll (empty limit) calls, depth_afterAll (empty limit) calls, within, ?_,
    pop_fails_iff, invalidate_fails_iff, invalidateParent_fails_iff, fun _ => answer_of_fails⟩
  exact fun frame => bound ▸ push_fails_iff (bound.symm ▸ within) frame

/-- The third frame is refused, and the last is pushed where the second was. -/
example :
    (history 2 [.push (.anonymous .object), .push (.anonymous .array), .push (.anonymous .object),
      .invalidate 0, .invalidate 1, .pop, .push (.anonymous .array), .invalidate 2]).frames =
      [(Frame.anonymous .object).invalidate, .anonymous .array] := by
  decide

end PathFold.Path
