import RideHud.Draw.Sketch

/-!
# What a sketch draws

Drawn on a canvas, a sketch performs operations one after the other and ends well or with an error
(`Sketch.Draws`). The operations tell the canvas afterwards (`Canvas.after`), so whatever is said of
them is said of the run (`Sketch.exists_draws`).
-/

namespace RideHud

variable {ε C : Type} [Canvas C]

/-! ## Operations in a row -/

/-- The canvas after some operations, whether or not they succeed. -/
def Canvas.after (ops : List Op) (c : C) : C := ops.foldl (fun c op => (perform op c).2) c

@[simp] theorem Canvas.after_nil (c : C) : after [] c = c := rfl

@[simp] theorem Canvas.after_cons (op : Op) (ops : List Op) (c : C) :
    after (op :: ops) c = after ops (perform op c).2 := rfl

@[simp] theorem Canvas.after_append (ops ops' : List Op) (c : C) :
    after (ops ++ ops') c = after ops' (after ops c) := List.foldl_append

/-! ## Sketches -/

/-- `Draws lift sketch c ops result` tells that on the canvas `c` the sketch performs the operations
`ops`, one after the other, and ends with `result`. -/
inductive Sketch.Draws (lift : CanvasError → ε) :
    Sketch ε → C → List Op → Except ε Unit → Prop
  | done {c : C} : Draws lift [] c [] (.ok ())
  | called {op : Op} {steps : Sketch ε} {c : C} {ops : List Op} {result : Except ε Unit}
      (hop : (Canvas.perform op c).1 = .ok ())
      (hsteps : Draws lift steps (Canvas.perform op c).2 ops result) :
      Draws lift (.call op :: steps) c (op :: ops) result
  | callFailed {op : Op} {steps : Sketch ε} {c : C} {e : CanvasError}
      (hop : (Canvas.perform op c).1 = .error e) :
      Draws lift (.call op :: steps) c [op] (.error (lift e))
  | attempted {op : Op} {next : Except CanvasError Unit → Sketch ε} {steps : Sketch ε} {c : C}
      {ops ops' : List Op} {result : Except ε Unit}
      (hnext : Draws lift (next (Canvas.perform op c).1) (Canvas.perform op c).2 ops (.ok ()))
      (hsteps : Draws lift steps (Canvas.after (op :: ops) c) ops' result) :
      Draws lift (.attempt op next :: steps) c (op :: ops ++ ops') result
  | attemptFailed {op : Op} {next : Except CanvasError Unit → Sketch ε} {steps : Sketch ε} {c : C}
      {ops : List Op} {e : ε}
      (hnext : Draws lift (next (Canvas.perform op c).1) (Canvas.perform op c).2 ops (.error e)) :
      Draws lift (.attempt op next :: steps) c (op :: ops) (.error e)
  | saved {body steps : Sketch ε} {c : C} {ops ops' : List Op} {result : Except ε Unit}
      (hbody : Draws lift body (Canvas.perform .save c).2 ops (.ok ()))
      (hsteps : Draws lift steps (Canvas.after (.save :: ops ++ [.restore]) c) ops' result) :
      Draws lift (.saved body :: steps) c (.save :: ops ++ [.restore] ++ ops') result
  | savedFailed {body steps : Sketch ε} {c : C} {ops : List Op} {e : ε}
      (hbody : Draws lift body (Canvas.perform .save c).2 ops (.error e)) :
      Draws lift (.saved body :: steps) c (.save :: ops ++ [.restore]) (.error e)
  | refused {e : ε} {steps : Sketch ε} {c : C} : Draws lift (.refuse e :: steps) c [] (.error e)
  | marked {steps : Sketch ε} {c : C} {ops : List Op} {result : Except ε Unit}
      (hsteps : Draws lift steps c ops result) : Draws lift (.mark :: steps) c ops result

/-- `ops` are what a step performs on `c`, and what becomes of a sketch that begins with it. -/
structure Step.Draws (lift : CanvasError → ε) (step : Step ε) (c : C) (ops : List Op) : Prop where
  after_eq : (step.run lift c).2 = Canvas.after ops c
  failed : ∀ e, (step.run lift c).1 = .error e →
    ∀ steps, Sketch.Draws lift (step :: steps) c ops (.error e)
  taken : (step.run lift c).1 = .ok () → ∀ steps ops' result,
    Sketch.Draws lift steps (Canvas.after ops c) ops' result →
      Sketch.Draws lift (step :: steps) c (ops ++ ops') result

namespace Step

variable {lift : CanvasError → ε} {c : C}

theorem draws_call (op : Op) : Step.Draws lift (.call op) c [op] where
  after_eq := by
    rw [Step.run]
    rfl
  failed e h steps := by
    rw [Step.run] at h
    cases hop : (Canvas.perform op c).1 with
    | ok u =>
        rw [hop] at h
        cases h
    | error e' =>
        rw [hop] at h
        cases h
        exact .callFailed hop
  taken h steps ops' result hsteps := by
    rw [Step.run] at h
    cases hop : (Canvas.perform op c).1 with
    | ok u => exact .called hop hsteps
    | error e' =>
        rw [hop] at h
        cases h

/-- The steps that an attempt asks for come after its operation. -/
theorem draws_attempt {op : Op} {next : Except CanvasError Unit → Sketch ε} {ops : List Op}
    (hnext : Sketch.Draws lift (next (Canvas.perform op c).1) (Canvas.perform op c).2 ops
      (Sketch.run lift (next (Canvas.perform op c).1) (Canvas.perform op c).2).1)
    (hafter : (Sketch.run lift (next (Canvas.perform op c).1) (Canvas.perform op c).2).2
      = Canvas.after ops (Canvas.perform op c).2) :
    Step.Draws lift (.attempt op next) c (op :: ops) where
  after_eq := by
    rw [Step.run, hafter]
    rfl
  failed e h steps := by
    rw [Step.run] at h
    rw [h] at hnext
    exact .attemptFailed hnext
  taken h steps ops' result hsteps := by
    rw [Step.run] at h
    rw [h] at hnext
    exact .attempted hnext hsteps

/-- The restore comes after the body of a saved part, however that ends. -/
theorem draws_saved {body : Sketch ε} {ops : List Op}
    (hbody : Sketch.Draws lift body (Canvas.perform .save c).2 ops
      (Sketch.run lift body (Canvas.perform .save c).2).1)
    (hafter : (Sketch.run lift body (Canvas.perform .save c).2).2
      = Canvas.after ops (Canvas.perform .save c).2) :
    Step.Draws lift (.saved body) c (.save :: ops ++ [.restore]) := by
  have hrun : Step.run lift (.saved body) c
      = ((Sketch.run lift body (Canvas.perform .save c).2).1,
          (Canvas.perform .restore (Sketch.run lift body (Canvas.perform .save c).2).2).2) := by
    rw [Step.run]
  refine ⟨?_, fun e h steps => ?_, fun h steps ops' result hsteps => ?_⟩
  · rw [hrun, hafter, Canvas.after_append]
    rfl
  · rw [hrun] at h
    rw [h] at hbody
    exact .savedFailed hbody
  · rw [hrun] at h
    rw [h] at hbody
    exact .saved hbody hsteps

theorem draws_refuse (e : ε) : Step.Draws lift (.refuse e) c [] where
  after_eq := by
    rw [Step.run]
    rfl
  failed e' h steps := by
    rw [Step.run] at h
    cases h
    exact .refused
  taken h := by
    rw [Step.run] at h
    cases h

theorem draws_mark : Step.Draws lift (.mark : Step ε) c [] where
  after_eq := by
    rw [Step.run]
    rfl
  failed e h := by
    rw [Step.run] at h
    cases h
  taken _ _ _ _ hsteps := .marked hsteps

end Step

-- A step may hold a sketch, so both are by one recursion.
mutual

/-- Every step performs some operations, and what comes after it goes on from there. -/
theorem Step.exists_draws (lift : CanvasError → ε) (step : Step ε) (c : C) :
    ∃ ops, step.Draws lift c ops := by
  cases step with
  | call op => exact ⟨_, Step.draws_call op⟩
  | attempt op next =>
      obtain ⟨ops, hnext, hafter⟩ :=
        Sketch.exists_draws lift (next (Canvas.perform op c).1) (Canvas.perform op c).2
      exact ⟨_, Step.draws_attempt hnext hafter⟩
  | saved body =>
      obtain ⟨ops, hbody, hafter⟩ := Sketch.exists_draws lift body (Canvas.perform .save c).2
      exact ⟨_, Step.draws_saved hbody hafter⟩
  | refuse e => exact ⟨_, Step.draws_refuse e⟩
  | mark => exact ⟨_, Step.draws_mark⟩

/-- **Every run of a sketch performs some operations**, and they tell the canvas afterwards. -/
theorem Sketch.exists_draws (lift : CanvasError → ε) (sketch : Sketch ε) (c : C) :
    ∃ ops, Sketch.Draws lift sketch c ops (sketch.run lift c).1 ∧
      (sketch.run lift c).2 = Canvas.after ops c := by
  cases sketch with
  | nil =>
      rw [Sketch.run_nil]
      exact ⟨[], .done, rfl⟩
  | cons step steps =>
      obtain ⟨ops, hafter, hfailed, htaken⟩ := Step.exists_draws lift step c
      rw [Sketch.run]
      cases hstep : step.run lift c with
      | mk result c' =>
          rw [hstep] at hafter hfailed htaken
          cases result with
          | error e => exact ⟨ops, hfailed e rfl steps, hafter⟩
          | ok u =>
              obtain ⟨ops', hsteps, hafter'⟩ := Sketch.exists_draws lift steps c'
              obtain rfl : c' = Canvas.after ops c := hafter
              exact ⟨ops ++ ops', htaken rfl steps ops' _ hsteps,
                by rw [Canvas.after_append]; exact hafter'⟩

end

end RideHud
