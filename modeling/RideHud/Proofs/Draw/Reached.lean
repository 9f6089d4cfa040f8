import RideHud.Proofs.Draw.Flat

/-!
# How far a sketch comes

A mark tells whether a run has come as far as it. In a tidy sketch that depends on the operations in
front of the mark alone (`Sketch.toMark`): the run comes to the mark exactly if these succeed,
whatever becomes of those behind it (`Sketch.Tidy.reaches_iff`).
-/

namespace RideHud

variable {ε C : Type} [Canvas C] {lift : CanvasError → ε}

/-! ## Operations in front of a mark -/

mutual

/-- The operations of a step in front of its first mark, if it has one. -/
def Step.toMark : Step ε → Option (List Op)
  | .call _ => none
  | .attempt _ _ => none
  | .saved body => (Sketch.toMark body).map (.save :: ·)
  | .refuse _ => none
  | .mark => some []

/-- The operations of a sketch in front of its first mark, if it has one. -/
def Sketch.toMark : Sketch ε → Option (List Op)
  | [] => none
  | step :: steps => step.toMark.or ((Sketch.toMark steps).map (step.ops ++ ·))

end

namespace Sketch

@[simp] theorem toMark_nil : toMark ([] : Sketch ε) = none := by
  rw [toMark]

@[simp] theorem toMark_mark_cons (steps : Sketch ε) : toMark (.mark :: steps) = some [] := by
  rw [toMark, Step.toMark, Option.some_or]

/-- A saved part comes to its own mark first. -/
theorem toMark_saved_cons (body steps : Sketch ε) :
    toMark (.saved body :: steps)
      = (body.toMark.map (.save :: ·)).or
          (steps.toMark.map (.save :: body.ops ++ [.restore] ++ ·)) := by
  rw [toMark, Step.toMark, Step.ops]

@[simp] theorem toMark_calls_append (os : List Op) (sketch : Sketch ε) :
    toMark (calls os ++ sketch) = sketch.toMark.map (os ++ ·) := by
  induction os with
  | nil => exact Option.map_id'.symm
  | cons op os ih =>
      rw [calls, List.map_cons, List.cons_append, toMark, Step.toMark, Option.none_or, Step.ops]
      refine (congrArg (Option.map ([op] ++ ·)) ih).trans ?_
      rw [Option.map_map]
      rfl

/-- Operations are not marked. -/
@[simp] theorem toMark_calls (os : List Op) : toMark (calls os : Sketch ε) = none := by
  rw [← List.append_nil (calls os), toMark_calls_append, toMark_nil, Option.map_none]

end Sketch

/-! ## Operations that succeed -/

/-- Operations in a row succeed if each part does. -/
theorem succeed_append_iff {ops ops' : List Op} {c : C} :
    Succeed (ops ++ ops') c ↔ Succeed ops c ∧ Succeed ops' (Canvas.after ops c) := by
  refine ⟨fun h => ?_, fun h => h.1.append h.2⟩
  induction ops generalizing c with
  | nil => exact ⟨trivial, h⟩
  | cons op ops ih => exact ⟨⟨h.1, (ih h.2).1⟩, (ih h.2).2⟩

/-- Whether the save and the restore around them succeed does not matter. -/
theorem succeed_bracket_iff {ops : List Op} {c : C} :
    Succeed (.save :: ops ++ [.restore]) c ↔ Succeed ops (Canvas.perform .save c).2 := by
  rw [succeed_append_iff]
  exact ⟨fun h => h.1.2, fun h => ⟨⟨nofun, h⟩, succeed_bracket rfl _⟩⟩

/-- Of operations that succeed, the first ones do. -/
theorem Succeed.of_isPrefix {ops ops' : List Op} {c : C} (h : Succeed ops' c) (hle : ops <+: ops') :
    Succeed ops c := by
  obtain ⟨more, rfl⟩ := hle
  exact (succeed_append_iff.mp h).1

namespace Sketch

variable {sketch : Sketch ε} {c : C} {ops : List Op}

/-- A tidy sketch whose operations succeed ends well. -/
theorem Tidy.run_of_succeed (htidy : Tidy sketch) (h : Succeed sketch.ops c) :
    sketch.run lift c = (.ok (), Canvas.after sketch.ops c) := by
  induction htidy generalizing c with
  | nil => rw [run_nil, ops_nil, Canvas.after_nil]
  | call hop _ ih =>
      rw [ops_call_cons] at h ⊢
      rw [Sketch.run, Step.run, h.1 hop]
      exact ih h.2
  | saved _ _ ihbody ih =>
      rw [ops_saved_cons, succeed_append_iff, succeed_bracket_iff] at h
      rw [Sketch.run, Step.run, ihbody h.1, ops_saved_cons, Canvas.after_append]
      rw [Canvas.after_append] at h ⊢
      exact ih h.2
  | mark _ ih =>
      rw [ops_mark_cons] at h ⊢
      rw [Sketch.run, Step.run]
      exact ih h

/-- A tidy sketch either ends well, and its operations succeed, or it fails, and they do not. -/
theorem Tidy.run_cases (htidy : Tidy sketch) (lift : CanvasError → ε) (c : C) :
    (Succeed sketch.ops c ∧ sketch.run lift c = (.ok (), Canvas.after sketch.ops c)) ∨
      (¬Succeed sketch.ops c ∧ ∃ e c', sketch.run lift c = (.error e, c')) := by
  by_cases h : Succeed sketch.ops c
  · exact .inl ⟨h, htidy.run_of_succeed h⟩
  · refine .inr ⟨h, ?_⟩
    obtain ⟨ops, hdraws, -⟩ := exists_draws lift sketch c
    cases hrun : sketch.run lift c with
    | mk result c' =>
        rw [hrun] at hdraws
        cases hdraws.ends htidy with
        | aborted before op n e => exact ⟨_, _, rfl⟩
        | well hops =>
            -- What ends well has performed all of its operations.
            rcases hdraws.ops_cases htidy with ⟨-, rfl⟩ | ⟨_, _, _, _, herror, -⟩
            · exact absurd hops h
            · cases herror

/-- What comes in front of a mark is a first part of the operations. -/
theorem isPrefix_of_toMark (htidy : Tidy sketch) (h : sketch.toMark = some ops) :
    ops <+: sketch.ops := by
  induction htidy generalizing ops with
  | nil =>
      rw [toMark] at h
      cases h
  | call _ _ ih =>
      rw [toMark, Step.toMark, Option.none_or, Option.map_eq_some_iff] at h
      obtain ⟨rest, hrest, rfl⟩ := h
      rw [Sketch.ops]
      exact (List.prefix_append_right_inj _).mpr (ih hrest)
  | @saved body steps _ _ ihbody ih =>
      rw [toMark, Step.toMark] at h
      cases hbody : body.toMark with
      | some inside =>
          rw [hbody] at h
          cases h
          rw [ops_saved_cons, List.append_assoc]
          exact (List.prefix_cons_inj _).mpr ((ihbody hbody).trans (List.prefix_append _ _))
      | none =>
          rw [hbody, Option.map_none, Option.none_or, Option.map_eq_some_iff] at h
          obtain ⟨rest, hrest, rfl⟩ := h
          rw [Sketch.ops]
          exact (List.prefix_append_right_inj _).mpr (ih hrest)
  | mark _ _ =>
      rw [toMark, Step.toMark] at h
      cases h
      exact List.nil_prefix

/-! ## One step -/

variable {step : Step ε} {steps : Sketch ε}

theorem run_singleton (step : Step ε) (c : C) : Sketch.run lift [step] c = step.run lift c := by
  rw [Sketch.run]
  rcases step.run lift c with ⟨_ | _, c'⟩
  · rfl
  · exact run_nil lift c'

theorem ops_singleton (step : Step ε) : Sketch.ops [step] = step.ops := by
  rw [Sketch.ops, ops_nil, List.append_nil]

theorem toMark_singleton (step : Step ε) : toMark [step] = step.toMark := by
  rw [toMark, toMark_nil, Option.map_none, Option.or_none]

/-- The steps behind a tidy one are reached if its operations succeed. -/
theorem Tidy.reaches_cons_iff (hstep : Tidy [step]) (c : C) :
    reaches lift (step :: steps) c = true ↔
      step.reaches lift c = true ∨
        Succeed step.ops c ∧ reaches lift steps (Canvas.after step.ops c) = true := by
  have hrun := hstep.run_cases lift c
  rw [run_singleton, ops_singleton] at hrun
  rw [reaches, Bool.or_eq_true]
  rcases hrun with ⟨hdone, hrun⟩ | ⟨hcut, e, c', hrun⟩
  · simp [hrun, hdone]
  · simp [hrun, hcut]

/-- The mark of a step is in front of those behind it. -/
theorem Tidy.reaches_cons (hstep : Tidy [step]) {c : C}
    (hmark : step.reaches lift c = true ↔ ∃ ops, step.toMark = some ops ∧ Succeed ops c)
    (hsteps : ∀ c : C, reaches lift steps c = true ↔
      ∃ ops, steps.toMark = some ops ∧ Succeed ops c) :
    reaches lift (step :: steps) c = true ↔
      ∃ ops, toMark (step :: steps) = some ops ∧ Succeed ops c := by
  rw [hstep.reaches_cons_iff, hmark, hsteps, toMark]
  cases hinside : step.toMark with
  | some inside =>
      -- If the whole step succeeds, then so does what is in front of its mark.
      have hle := isPrefix_of_toMark hstep ((toMark_singleton step).trans hinside)
      rw [ops_singleton] at hle
      simp only [Option.some_or, Option.some.injEq, exists_eq_left']
      exact ⟨fun h => h.elim id fun h => h.1.of_isPrefix hle, .inl⟩
  | none =>
      simp only [reduceCtorEq, false_and, exists_false, false_or, Option.none_or,
        Option.map_eq_some_iff, exists_exists_and_eq_and, succeed_append_iff]
      exact ⟨fun ⟨hdone, rest, hrest, h⟩ => ⟨rest, hrest, hdone, h⟩,
        fun ⟨rest, hrest, hdone, h⟩ => ⟨hdone, rest, hrest, h⟩⟩

/-! ## The main theorem -/

/-- **A tidy sketch comes to its mark exactly if the operations in front of it succeed.** -/
theorem Tidy.reaches_iff (htidy : Tidy sketch) (lift : CanvasError → ε) (c : C) :
    sketch.reaches lift c = true ↔ ∃ ops, sketch.toMark = some ops ∧ Succeed ops c := by
  induction htidy generalizing c with
  | nil => simp [reaches]
  | call hop _ ih =>
      refine Tidy.reaches_cons (.call hop .nil) ?_ ih
      simp [Step.reaches, Step.toMark]
  | saved hbody _ ihbody ih =>
      refine Tidy.reaches_cons (.saved hbody .nil) ?_ ih
      rw [Step.reaches, Step.toMark, ihbody]
      simp [Succeed, Op.isBracket]
  | mark _ ih =>
      refine Tidy.reaches_cons (.mark .nil) ?_ ih
      simp [Step.reaches, Step.toMark, Succeed]

end Sketch

end RideHud
