import Mathlib.Data.List.Induction
import RideHud.Draw.Recording
import RideHud.Proofs.Draw.Drawing

/-!
# Tidy sketches

A sketch is tidy if it neither saves nor restores but for its saved parts, and fails only where an
operation does. What it performs is balanced, however it ends, and nothing but restores comes after
an operation that fails.

* `Sketch.Draws.balanced`: saves and restores match;
* `Sketch.Draws.ends`: how a tidy sketch ends;
* `Recording.depth_of_balanced`, `Recording.ends_cases`: what both mean on a recording canvas.
-/

namespace RideHud

variable {ε C : Type} [Canvas C] {lift : CanvasError → ε} {result : Except ε Unit}

/-- The operation saves a state, or goes back to one. -/
def Op.isBracket : Op → Bool
  | .save | .restore => true
  | _ => false

/-! ## Saves and restores -/

/-- Saves and restores match: no first part has more restores than saves, and in total there are as
many. -/
structure Balanced (ops : List Op) : Prop where
  count_take_le : ∀ k, (ops.take k).count .restore ≤ (ops.take k).count .save
  count_eq : ops.count .restore = ops.count .save

/-- Other operations do not matter. -/
theorem count_cons_of_isBracket_eq_false {op : Op} (hop : op.isBracket = false) (ops : List Op) :
    (op :: ops).count .save = ops.count .save ∧ (op :: ops).count .restore = ops.count .restore := by
  constructor <;> refine List.count_cons_of_ne ?_ <;> rintro rfl <;> cases hop

theorem balanced_nil : Balanced [] where
  count_take_le k := by rw [List.take_nil]; exact Nat.le_refl _
  count_eq := rfl

theorem Balanced.append {ops ops' : List Op} (h : Balanced ops) (h' : Balanced ops') :
    Balanced (ops ++ ops') where
  count_take_le k := by
    rw [List.take_append, List.count_append, List.count_append]
    exact Nat.add_le_add (h.count_take_le k) (h'.count_take_le _)
  count_eq := by rw [List.count_append, List.count_append, h.count_eq, h'.count_eq]

theorem balanced_singleton {op : Op} (hop : op.isBracket = false) : Balanced [op] where
  count_take_le k := by
    cases k with
    | zero => exact Nat.le_refl _
    | succ k =>
        obtain ⟨hsave, hrestore⟩ := count_cons_of_isBracket_eq_false hop []
        rw [List.take_succ_cons, List.take_nil, hsave, hrestore]
        exact Nat.le_refl _
  count_eq := by
    obtain ⟨hsave, hrestore⟩ := count_cons_of_isBracket_eq_false hop []
    rw [hsave, hrestore]
    rfl

/-- Balanced operations are balanced between a save and a restore. -/
theorem Balanced.bracket {ops : List Op} (h : Balanced ops) :
    Balanced (.save :: ops ++ [.restore]) where
  count_take_le k := by
    cases k with
    | zero => exact Nat.le_refl _
    | succ k =>
        -- The restore at the end is paid for by the save in front.
        have hlast : (List.take (k - ops.length) [Op.restore]).count .restore ≤ 1 :=
          Nat.le_trans List.count_le_length (List.length_take_le' _ _)
        have hinside := h.count_take_le k
        rw [List.cons_append, List.take_succ_cons, List.take_append, List.count_cons_self,
          List.count_cons_of_ne (by decide), List.count_append, List.count_append]
        omega
  count_eq := by
    have hsave : (Op.save :: ops ++ [Op.restore]).count .save = ops.count .save + 1 := by simp
    have hrestore : (Op.save :: ops ++ [Op.restore]).count .restore = ops.count .restore + 1 := by
      simp
    rw [hsave, hrestore, h.count_eq]

/-! ## Operations that succeed -/

/-- The operations succeed, whatever saves and restores among them do. -/
def Succeed : List Op → C → Prop
  | [], _ => True
  | op :: ops, c =>
    (op.isBracket = false → (Canvas.perform op c).1 = .ok ()) ∧ Succeed ops (Canvas.perform op c).2

theorem Succeed.append {ops ops' : List Op} {c : C} (h : Succeed ops c)
    (h' : Succeed ops' (Canvas.after ops c)) : Succeed (ops ++ ops') c := by
  induction ops generalizing c with
  | nil => exact h'
  | cons op ops ih => exact ⟨h.1, ih h.2 h'⟩

theorem succeed_singleton {op : Op} {c : C} (h : (Canvas.perform op c).1 = .ok ()) :
    Succeed [op] c :=
  ⟨fun _ => h, trivial⟩

/-- Whether a save or a restore succeeds does not matter. -/
theorem succeed_bracket {op : Op} (hop : op.isBracket = true) (c : C) : Succeed [op] c :=
  ⟨fun hplain => absurd hop (by rw [hplain]; exact Bool.false_ne_true), trivial⟩

/-- Some operations end well if they succeed; otherwise they are aborted by the first that does not,
after which nothing comes but restores. -/
inductive Ends (lift : CanvasError → ε) (ops : List Op) (c : C) : Except ε Unit → Prop
  | well (h : Succeed ops c) : Ends lift ops c (.ok ())
  | aborted (before : List Op) (op : Op) (n : ℕ) (e : CanvasError)
      (hops : ops = before ++ op :: List.replicate n .restore) (hbefore : Succeed before c)
      (hop : op.isBracket = false)
      (hfailed : (Canvas.perform op (Canvas.after before c)).1 = .error e) :
      Ends lift ops c (.error (lift e))

/-- Operations that succeed may come in front. -/
theorem Ends.prepend {ops ops' : List Op} {c : C}
    (h : Ends lift ops' (Canvas.after ops c) result) (hops : Succeed ops c) :
    Ends lift (ops ++ ops') c result := by
  cases h with
  | well h => exact .well (hops.append h)
  | aborted before op n e hops' hbefore hop hfailed =>
      refine .aborted (ops ++ before) op n e ?_ (hops.append hbefore) hop ?_
      · rw [hops', List.append_assoc]
      · rwa [Canvas.after_append]

/-- A restore comes after operations however they end. -/
theorem Ends.bracket {ops : List Op} {c : C}
    (h : Ends lift ops (Canvas.perform .save c).2 result) :
    Ends lift (.save :: ops ++ [.restore]) c result := by
  have hsave : Succeed [.save] c := succeed_bracket rfl c
  cases h with
  | well h => exact .well ((hsave.append h).append (succeed_bracket rfl _))
  | aborted before op n e hops hbefore hop hfailed =>
      refine .aborted (.save :: before) op (n + 1) e ?_ (hsave.append hbefore) hop hfailed
      rw [hops, List.replicate_succ', List.cons_append, List.cons_append, List.append_assoc,
        List.cons_append]

/-- What the errors are called does not matter. -/
theorem Ends.mapError {ε' : Type} {ops : List Op} {c : C} (h : Ends lift ops c result)
    (f : ε → ε') : Ends (fun e => f (lift e)) ops c (result.mapError f) := by
  cases h with
  | well h => exact .well h
  | aborted before op n e hops hbefore hop hfailed =>
      exact .aborted before op n e hops hbefore hop hfailed

/-! ## Tidy sketches -/

/-- A sketch that calls for operations other than saves and restores, and for saved parts. It may
be marked. -/
inductive Sketch.Tidy : Sketch ε → Prop
  | nil : Tidy []
  | call {op : Op} {steps : Sketch ε} (hop : op.isBracket = false) (hsteps : Tidy steps) :
      Tidy (.call op :: steps)
  | saved {body steps : Sketch ε} (hbody : Tidy body) (hsteps : Tidy steps) :
      Tidy (.saved body :: steps)
  | mark {steps : Sketch ε} (hsteps : Tidy steps) : Tidy (.mark :: steps)

namespace Sketch

theorem Tidy.append {sketch sketch' : Sketch ε} (h : Tidy sketch) (h' : Tidy sketch') :
    Tidy (sketch ++ sketch') := by
  induction h with
  | nil => exact h'
  | call hop _ ih => exact .call hop ih
  | saved hbody _ _ ih => exact .saved hbody ih
  | mark _ ih => exact .mark ih

/-- Operations other than saves and restores are a tidy sketch. -/
theorem tidy_calls {ops : List Op} (h : (ops.all fun op => !op.isBracket) = true) :
    Tidy (calls ops : Sketch ε) := by
  induction ops with
  | nil => exact .nil
  | cons op ops ih =>
      rw [List.all_cons, Bool.and_eq_true] at h
      obtain ⟨hop, hops⟩ := h
      exact .call (by simpa using hop) (ih hops)

variable {sketch : Sketch ε} {c : C} {ops : List Op}

/-- **What a tidy sketch performs is balanced**, however it ends. -/
theorem Draws.balanced (h : Draws lift sketch c ops result) (htidy : Tidy sketch) :
    Balanced ops := by
  induction h with
  | done => exact balanced_nil
  | called _ _ ih =>
      cases htidy with
      | call hop hsteps => exact (balanced_singleton hop).append (ih hsteps)
  | callFailed _ =>
      cases htidy with
      | call hop _ => exact balanced_singleton hop
  | attempted => cases htidy
  | attemptFailed => cases htidy
  | saved _ _ ihbody ihsteps =>
      cases htidy with
      | saved hbody hsteps => exact (ihbody hbody).bracket.append (ihsteps hsteps)
  | savedFailed _ ihbody =>
      cases htidy with
      | saved hbody _ => exact (ihbody hbody).bracket
  | refused => cases htidy
  | marked _ ih =>
      cases htidy with
      | mark hsteps => exact ih hsteps

/-- **A tidy sketch ends with the first operation that fails**, and then only restores. -/
theorem Draws.ends (h : Draws lift sketch c ops result) (htidy : Tidy sketch) :
    Ends lift ops c result := by
  induction h with
  | done => exact .well trivial
  | called hop _ ih =>
      cases htidy with
      | call _ hsteps => exact (ih hsteps).prepend (succeed_singleton hop)
  | callFailed hop =>
      cases htidy with
      | call hplain _ => exact .aborted [] _ 0 _ rfl trivial hplain hop
  | attempted => cases htidy
  | attemptFailed => cases htidy
  | saved _ _ ihbody ihsteps =>
      cases htidy with
      | saved hbody hsteps =>
          -- The body has ended well, so it is not aborted and the rest decides.
          cases (ihbody hbody).bracket with
          | well hsaved => exact (ihsteps hsteps).prepend hsaved
  | savedFailed _ ihbody =>
      cases htidy with
      | saved hbody _ => exact (ihbody hbody).bracket
  | refused => cases htidy
  | marked _ ih =>
      cases htidy with
      | mark hsteps => exact ih hsteps

end Sketch

/-! ## Canvases that do not fail -/

/-- Whatever is performed on the canvas, it succeeds. As only paintings can fail, this asks that they
do not. -/
def Canvas.Reliable (c : C) : Prop :=
  ∀ (ops : List Op) (op : Op), (perform op (after ops c)).1 = .ok ()

theorem Canvas.Reliable.after {c : C} (hc : Canvas.Reliable c) (ops : List Op) :
    Canvas.Reliable (Canvas.after ops c) := by
  intro ops' op
  rw [← Canvas.after_append]
  exact hc _ op

/-- On a canvas that does not fail, nothing is aborted. -/
theorem Canvas.Reliable.eq_ok {ops : List Op} {c : C} (hc : Canvas.Reliable c)
    (h : Ends lift ops c result) : result = .ok () := by
  cases h with
  | well _ => rfl
  | aborted before op n e _ _ _ hfailed =>
      rw [hc] at hfailed
      cases hfailed

/-! ## Recording canvases -/

namespace Recording

@[simp] theorem ops_after (ops : List Op) (r : Recording) :
    (Canvas.after ops r).ops = r.ops ++ ops := by
  induction ops generalizing r with
  | nil => exact (List.append_nil _).symm
  | cons op ops ih =>
      rw [Canvas.after_cons, ih]
      exact List.append_assoc r.ops [op] ops

@[simp] theorem failing_after (ops : List Op) (r : Recording) :
    (Canvas.after ops r).failing = r.failing := by
  induction ops generalizing r with
  | nil => rfl
  | cons op ops ih => exact ih _

/-- What fails is the painting that was asked to. -/
theorem perform_eq_error {op : Op} {r : Recording} {e : CanvasError}
    (h : (Canvas.perform op r).1 = .error e) :
    ∃ p, r.failing = some p ∧ op = .apply p ∧ e = .requested p := by
  cases op with
  | apply p =>
      change (if r.failing = some p then .error (.requested p) else .ok ()
        : Except CanvasError Unit) = _ at h
      split at h
      · next hp =>
          cases h
          exact ⟨p, hp, rfl, rfl⟩
      · cases h
  | _ => cases h

/-- A recording canvas that was not told to fail does not. -/
theorem reliable_of_failing_eq_none {r : Recording} (h : r.failing = none) : Canvas.Reliable r := by
  intro ops op
  cases hop : (Canvas.perform op (Canvas.after ops r)).1 with
  | ok u => rfl
  | error e =>
      obtain ⟨p, hp, -⟩ := perform_eq_error hop
      rw [failing_after, h] at hp
      cases hp

/-- Among operations that succeed there is none of the kind that fails. -/
theorem apply_not_mem {ops : List Op} {r : Recording} {p : Painting} (hp : r.failing = some p)
    (h : Succeed ops r) : .apply p ∉ ops := by
  induction ops generalizing r with
  | nil => exact List.not_mem_nil
  | cons op ops ih =>
      rintro hmem
      rcases List.mem_cons.mp hmem with rfl | hmem
      · have hok : (if r.failing = some p then .error (.requested p) else .ok ()
            : Except CanvasError Unit) = .ok () := h.1 rfl
        rw [if_pos hp] at hok
        cases hok
      · exact ih (r := (Canvas.perform op r).2) hp h.2 hmem

/-- Operations end well without a painting of the kind that fails. Otherwise the first one is the
last operation but for restores. -/
theorem ends_cases {ops : List Op} {r : Recording} (h : Ends lift ops r result) :
    (result = .ok () ∧ ∀ p, r.failing = some p → .apply p ∉ ops) ∨
      ∃ p before n, r.failing = some p ∧ result = .error (lift (.requested p)) ∧
        ops = before ++ .apply p :: List.replicate n .restore ∧ .apply p ∉ before := by
  cases h with
  | well h => exact .inl ⟨rfl, fun p hp => apply_not_mem hp h⟩
  | aborted before op n e hops hbefore _ hfailed =>
      obtain ⟨p, hp, rfl, rfl⟩ := perform_eq_error hfailed
      rw [failing_after] at hp
      exact .inr ⟨p, before, n, hp, rfl, hops, apply_not_mem hp hbefore⟩

/-- As long as no restore is without a save, the saved states are counted exactly. -/
theorem depth_add_count {ops : List Op}
    (h : ∀ k, (ops.take k).count .restore ≤ (ops.take k).count .save) (r : Recording) :
    (Canvas.after ops r).depth + ops.count .restore = r.depth + ops.count .save := by
  induction ops using List.reverseRecOn with
  | nil => rfl
  | append_singleton ops op ih =>
      have hfront : ∀ k, (ops.take k).count .restore ≤ (ops.take k).count .save := by
        intro k
        have htake : (ops ++ [op]).take (min k ops.length) = ops.take k := by
          rw [List.take_append_of_le_length (Nat.min_le_right _ _), ← List.take_eq_take_min]
        rw [← htake]
        exact h _
      have hdepth := ih hfront
      have hall := h (ops.length + 1)
      rw [List.take_of_length_le (by simp)] at hall
      rw [Canvas.after_append]
      show depthAfter op (Canvas.after ops r).depth + _ = _
      rw [List.count_append, List.count_append] at hall ⊢
      cases op with
      | save =>
          show _ + 1 + (_ + 0) = _ + (_ + 1)
          omega
      | restore =>
          -- The restore has its save, so the number it takes one from is not zero.
          replace hall : ops.count .restore + 1 ≤ ops.count .save := hall
          show _ - 1 + (_ + 1) = _ + (_ + 0)
          omega
      | _ => exact hdepth

/-- **Balanced operations leave the number of saved states.** -/
theorem depth_of_balanced {ops : List Op} (h : Balanced ops) (r : Recording) :
    (Canvas.after ops r).depth = r.depth := by
  have hdepth := depth_add_count h.count_take_le r
  rw [h.count_eq] at hdepth
  exact Nat.add_right_cancel hdepth

end Recording

end RideHud
