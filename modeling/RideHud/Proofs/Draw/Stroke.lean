import RideHud.Proofs.Draw.Flat

/-!
# What is drawn with a gradient

Operations draw a line with every gradient if, wherever a gradient is set, the line and a stroke
come next (`Strokes`). A recording canvas fails with paintings only, so a sketch that draws such a
line does so even if it fails: it fails before the gradient is set, or not before the stroke
(`Strokes.of_draws`).
-/

namespace RideHud

/-- The operation sets a gradient. -/
def Op.setsGradient : Op → Bool
  | .paint (.linear _ _ _) => true
  | _ => false

/-- The operation paints. -/
def Op.paints : Op → Bool
  | .apply _ => true
  | _ => false

/-- Wherever a gradient is set, the operations of a line come next, and then a stroke. -/
def Strokes (line ops : List Op) : Prop :=
  ∀ before op rest, op.setsGradient = true → ops = before ++ op :: rest →
    line ++ [.apply .stroke] <+: rest

variable {line ops ops' : List Op}

/-! ## Operations -/

/-- Nothing is asked of operations that set no gradient. -/
theorem strokes_of_all (h : (ops.all fun op => !op.setsGradient) = true) : Strokes line ops := by
  rintro before op rest hop rfl
  have hplain := List.all_eq_true.mp h op (List.mem_append_right _ List.mem_cons_self)
  rw [hop] at hplain
  cases hplain

theorem Strokes.append (h : Strokes line ops) (h' : Strokes line ops') :
    Strokes line (ops ++ ops') := by
  intro before op rest hop hsplit
  rcases List.append_eq_append_iff.mp hsplit with ⟨before', -, hrest⟩ | ⟨rest', hbefore, hrest⟩
  · exact h' before' op rest hop hrest
  · cases rest' with
    | nil => exact h' [] op rest hop hrest.symm
    | cons op' rest' =>
        cases hrest
        exact (h before op rest' hop hbefore).trans (List.prefix_append _ _)

/-- The line may be drawn with the gradient in front. -/
theorem strokes_cons (hnext : line ++ [.apply .stroke] <+: ops)
    (hops : (ops.all fun op => !op.setsGradient) = true) (op : Op) : Strokes line (op :: ops) := by
  intro before op' rest hop hsplit
  cases before with
  | nil =>
      cases hsplit
      exact hnext
  | cons first before =>
      cases hsplit
      exact strokes_of_all hops before op' rest hop rfl

/-- **A painting may fail**: the gradient is not set before it, or it is not before the stroke. -/
theorem Strokes.cut (h : Strokes line ops) (hline : (line.all fun op => !op.paints) = true)
    {before : List Op} {p : Painting} (hle : before ++ [.apply p] <+: ops) (n : ℕ) :
    Strokes line (before ++ .apply p :: List.replicate n .restore) := by
  have hrestores : ((Op.apply p :: List.replicate n .restore).all
      fun op => !op.setsGradient) = true := by
    simp [Op.setsGradient]
  intro start op rest hop hsplit
  rcases List.append_eq_append_iff.mp hsplit with ⟨middle, -, hrest⟩ | ⟨middle, rfl, hrest⟩
  · -- No gradient is set from the painting on.
    exact strokes_of_all hrestores middle op rest hop hrest
  · cases middle with
    | nil =>
        cases hrest
        cases hop
    | cons op' middle =>
        rw [List.cons_append, List.cons.injEq] at hrest
        obtain ⟨rfl, rfl⟩ := hrest
        -- What the line needs was performed, as the painting is no part of the line.
        have hdone : line ++ [.apply .stroke] <+: middle ++ [.apply p] := by
          obtain ⟨more, rfl⟩ := hle
          have hnext := h start op (middle ++ [.apply p] ++ more) hop (by simp)
          rcases List.prefix_or_prefix_of_prefix hnext (List.prefix_append _ _) with hle | hge
          · exact hle
          · rcases List.prefix_concat_iff.mp hge with heq | hshort
            · exact ⟨[], (List.append_nil _).trans heq.symm⟩
            · have hmem : .apply p ∈ line :=
                hshort.subset (List.mem_append_right _ (List.mem_singleton_self _))
              cases List.all_eq_true.mp hline _ hmem
        rw [List.append_cons middle]
        exact hdone.trans (List.prefix_append _ _)

/-! ## Sketches -/

namespace Strokes

variable {ε : Type} {body sketch : Sketch ε}

/-- Saves and restores set no gradient. -/
theorem bracket (h : Strokes line ops) : Strokes line (.save :: ops ++ [.restore]) :=
  ((strokes_of_all rfl : Strokes line [.save]).append h).append (strokes_of_all rfl)

theorem calls (h : Strokes line ops) : Strokes line (Sketch.ops (Sketch.calls ops : Sketch ε)) := by
  rwa [Sketch.ops_calls]

theorem saved (hbody : Strokes line body.ops) (hsketch : Strokes line sketch.ops) :
    Strokes line (Sketch.ops (.saved body :: sketch)) := by
  rw [Sketch.ops_saved_cons]
  exact hbody.bracket.append hsketch

theorem sketch_append (h : Strokes line body.ops) (h' : Strokes line sketch.ops) :
    Strokes line (Sketch.ops (body ++ sketch)) := by
  rw [Sketch.ops_append]
  exact h.append h'

/-- **A sketch draws its line on every recording canvas**, if it sets the gradient at all. -/
theorem of_draws {lift : CanvasError → ε} {r : Recording} {result : Except ε Unit}
    (h : Strokes line sketch.ops) (hline : (line.all fun op => !op.paints) = true)
    (htidy : sketch.Tidy) (hdraws : Sketch.Draws lift sketch r ops result) : Strokes line ops := by
  rcases hdraws.ops_cases htidy with ⟨-, rfl⟩ | ⟨before, op, n, e, -, rfl, hle, hfailed⟩
  · exact h
  · obtain ⟨p, -, rfl, -⟩ := Recording.perform_eq_error hfailed
    exact h.cut hline hle n

end Strokes

/-- Operations without a gradient are a sketch without one. -/
theorem strokes_calls {ε : Type} (h : (ops.all fun op => !op.setsGradient) = true) :
    Strokes line (Sketch.ops (Sketch.calls ops : Sketch ε)) :=
  (strokes_of_all h).calls

end RideHud
