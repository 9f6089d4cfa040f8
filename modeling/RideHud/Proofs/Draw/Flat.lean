import RideHud.Proofs.Draw.Tidy

/-!
# The operations of a sketch

As long as nothing fails, a tidy sketch performs one list of operations, whatever the canvas: those
that it calls for, with its saved parts between a save and a restore (`Sketch.ops`).

* `Sketch.ops_append`, `Sketch.ops_calls`: the list follows the steps of the sketch;
* `Sketch.Draws.ops_cases`: a sketch that fails performs a first part of it;
* `Sketch.Draws.eq_ops`: it is what the sketch performs on a canvas that does not fail.
-/

namespace RideHud

variable {ε C : Type} [Canvas C]

mutual

/-- The operations of a step. Of an operation that is only attempted, what comes after it is up to
its outcome and left out. -/
def Step.ops : Step ε → List Op
  | .call op => [op]
  | .attempt op _ => [op]
  | .saved body => .save :: Sketch.ops body ++ [.restore]
  | .refuse _ => []
  | .mark => []

/-- The operations of a sketch, in order. -/
def Sketch.ops : Sketch ε → List Op
  | [] => []
  | step :: steps => step.ops ++ Sketch.ops steps

end

namespace Sketch

@[simp] theorem ops_nil : ops ([] : Sketch ε) = [] := by
  rw [ops]

@[simp] theorem ops_call_cons (op : Op) (steps : Sketch ε) :
    ops (.call op :: steps) = op :: ops steps := by
  rw [ops, Step.ops]
  rfl

@[simp] theorem ops_saved_cons (body steps : Sketch ε) :
    ops (.saved body :: steps) = .save :: ops body ++ [.restore] ++ ops steps := by
  rw [ops, Step.ops]

@[simp] theorem ops_mark_cons (steps : Sketch ε) : ops (.mark :: steps) = ops steps := by
  rw [ops, Step.ops]
  rfl

@[simp] theorem ops_append (sketch sketch' : Sketch ε) :
    ops (sketch ++ sketch') = ops sketch ++ ops sketch' := by
  induction sketch with
  | nil => rw [ops_nil, List.nil_append, List.nil_append]
  | cons step steps ih => rw [List.cons_append, ops, ops, ih, List.append_assoc]

@[simp] theorem ops_calls (os : List Op) : ops (calls os : Sketch ε) = os := by
  induction os with
  | nil => exact ops_nil
  | cons op os ih =>
      rw [calls, List.map_cons, ops_call_cons]
      exact congrArg (op :: ·) ih

/-- **A tidy sketch performs its operations as far as they succeed.** It performs all of them and
ends well, or those up to one that fails, and then only restores. -/
theorem Draws.ops_cases {lift : CanvasError → ε} {sketch : Sketch ε} {c : C} {os : List Op}
    {result : Except ε Unit} (h : Draws lift sketch c os result) (htidy : Tidy sketch) :
    result = .ok () ∧ os = sketch.ops ∨
      ∃ before op n e, result = .error (lift e) ∧
        os = before ++ op :: List.replicate n .restore ∧ before ++ [op] <+: sketch.ops ∧
        (Canvas.perform op (Canvas.after before c)).1 = .error e := by
  induction h with
  | done => exact .inl ⟨rfl, ops_nil.symm⟩
  | called _ _ ih =>
      cases htidy with
      | call _ hsteps =>
          rw [ops_call_cons]
          rcases ih hsteps with ⟨hok, rfl⟩ | ⟨before, op', n, e, herror, rfl, hle, hfailed⟩
          · exact .inl ⟨hok, rfl⟩
          · exact .inr ⟨_ :: before, op', n, e, herror, rfl, (List.prefix_cons_inj _).mpr hle,
              hfailed⟩
  | callFailed hop =>
      rw [ops_call_cons]
      exact .inr ⟨[], _, 0, _, rfl, rfl, (List.prefix_cons_inj _).mpr List.nil_prefix, hop⟩
  | attempted => cases htidy
  | attemptFailed => cases htidy
  | saved _ _ ihbody ihsteps =>
      cases htidy with
      | saved hbody hsteps =>
          -- The body has ended well, so it is whole and the rest decides.
          rcases ihbody hbody with ⟨-, rfl⟩ | ⟨_, _, _, _, herror, -⟩
          · rw [ops_saved_cons]
            rcases ihsteps hsteps with ⟨hok, rfl⟩ | ⟨before, op, n, e, herror, rfl, hle, hfailed⟩
            · exact .inl ⟨hok, rfl⟩
            · refine .inr ⟨_ ++ before, op, n, e, herror, (List.append_assoc _ _ _).symm, ?_, ?_⟩
              · rw [List.append_assoc]
                exact (List.prefix_append_right_inj _).mpr hle
              · rwa [Canvas.after_append]
          · cases herror
  | savedFailed _ ihbody =>
      cases htidy with
      | saved hbody _ =>
          rw [ops_saved_cons]
          rcases ihbody hbody with ⟨hok, -⟩ | ⟨before, op, n, e, herror, rfl, hle, hfailed⟩
          · cases hok
          · refine .inr ⟨.save :: before, op, n + 1, e, herror, ?_, ?_, hfailed⟩
            · simp [List.replicate_succ']
            · rw [List.append_assoc]
              exact (List.prefix_cons_inj _).mpr (hle.trans (List.prefix_append _ _))
  | refused => cases htidy
  | marked _ ih =>
      cases htidy with
      | mark hsteps =>
          rw [ops_mark_cons]
          exact ih hsteps

/-- **On a canvas that does not fail, a tidy sketch performs its operations** and ends well. -/
theorem Draws.eq_ops {lift : CanvasError → ε} {sketch : Sketch ε} {c : C} {os : List Op}
    {result : Except ε Unit} (h : Draws lift sketch c os result) (htidy : Tidy sketch)
    (hc : Canvas.Reliable c) : result = .ok () ∧ os = sketch.ops := by
  rcases h.ops_cases htidy with hwhole | ⟨before, op, _, _, -, -, -, hfailed⟩
  · exact hwhole
  · -- The operation cannot have failed.
    exact absurd ((hc before op).symm.trans hfailed) nofun

end Sketch

end RideHud
