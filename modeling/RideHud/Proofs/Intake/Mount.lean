import RideHud.Intake
import RideHud.Proofs.Geometry.Rotation

/-!
# The mount and the world

The axes of the sensor are turned to those of the gondola: vectors by the mount turned round, the
orientation by the mount itself. The two undo each other, so without rounding a vector of a sample
keeps its length and is the same one when it is seen from the world.

* `norm_turn_conjugate`, `rotate_turn_conjugate`: what is turned back keeps its length, and the
  product with the mount turns it again;
* `unmount_keeps_world`: what this means for a sample.
-/

namespace RideHud

open scoped RideHud.Exact

namespace Quat

variable {mount : Quat ℝ}

/-- A vector that is turned back by a mount of norm one keeps its length. -/
theorem norm_turn_conjugate (h : mount.norm = 1) (v : Vec ℝ) :
    (mount.conjugate.turn v).norm = v.norm := by
  have hconjugate : mount.conjugate.normSq = 1 := by
    rw [normSq_conjugate, norm_eq_one_iff.mp h]
  show √(mount.conjugate.turn v).normSq = √v.normSq
  rw [turn_eq_rotate hconjugate, normSq_rotate, hconjugate, one_mul, one_mul]

/-- A vector that is turned back by a mount of norm one is turned again by a product with it. -/
theorem rotate_turn_conjugate (h : mount.norm = 1) (q : Quat ℝ) (v : Vec ℝ) :
    (q * mount).rotate (mount.conjugate.turn v) = q.rotate v := by
  have hmount := norm_eq_one_iff.mp h
  have hconjugate : mount.conjugate.normSq = 1 := by rw [normSq_conjugate, hmount]
  rw [turn_eq_rotate hconjugate, rotate_mul, rotate_rotate_conjugate hmount]

end Quat

/-- The vectors that a sample tells. -/
def Sample.vectors : List (Sample ℝ → Vec ℝ) := [Sample.accel, Sample.gyro, Sample.mag]

namespace Intake

variable {mount : Quat ℝ}

/-- **The mount does not move the world.** For every mount of norm one and every sample, whatever the
norm of its orientation is: seen from the gondola each of its vectors has the length that it had, and
the new orientation turns it to what the old one turned it to. -/
theorem unmount_keeps_world (hmount : mount.norm = 1) (s : Sample ℝ) :
    ∀ vector ∈ Sample.vectors,
      (vector (unmount mount s)).norm = (vector s).norm ∧
        (unmount mount s).quat.rotate (vector (unmount mount s)) = s.quat.rotate (vector s) := by
  intro vector hvector
  simp only [Sample.vectors, List.mem_cons, List.not_mem_nil, or_false] at hvector
  rcases hvector with rfl | rfl | rfl
  all_goals
    exact ⟨Quat.norm_turn_conjugate hmount _, Quat.rotate_turn_conjugate hmount _ _⟩

/-- A mount that turns each axis to the next one, a third of a turn about the diagonal. -/
noncomputable def diagonal : Quat ℝ := Quat.toUnit ⟨1, 1, 1, 1⟩

/-- A sample whose orientation is not of norm one. -/
def stretched : Sample ℝ := ⟨0, ⟨1, 0, 0⟩, ⟨0, 1, 1⟩, ⟨0, 0, 1⟩, 0, 0, ⟨1, 0, 0, 1⟩⟩

/-- The acceleration has other coordinates, but in the world it is the same. -/
theorem unmount_diagonal : diagonal.norm = 1 ∧ Sample.accel ∈ Sample.vectors ∧
    (unmount diagonal stretched).accel = ⟨0, 0, 1⟩ ∧
    (unmount diagonal stretched).accel.norm = stretched.accel.norm ∧
    (unmount diagonal stretched).quat.rotate ⟨0, 0, 1⟩ = ⟨0, 2, 0⟩ := by
  have hlength : (⟨1, 1, 1, 1⟩ : Quat ℝ).norm = 2 := by
    show √((1 * 1 + 1 * 1) + (1 * 1 + 1 * 1)) = 2
    rw [Real.sqrt_eq_iff_mul_self_eq_of_pos two_pos]
    norm_num
  have hsq : diagonal.normSq = 1 := by
    norm_num [diagonal, Quat.toUnit, hlength, Quat.divide, Quat.normSq]
  have hmount : diagonal.norm = 1 := Quat.norm_eq_one_iff.mpr hsq
  have hmem : Sample.accel ∈ Sample.vectors := List.mem_cons_self
  have haccel : (unmount diagonal stretched).accel = ⟨0, 0, 1⟩ := by
    show diagonal.conjugate.turn stretched.accel = _
    rw [Quat.turn_eq_rotate (by rw [Quat.normSq_conjugate, hsq]), Quat.rotate_eq]
    norm_num [diagonal, Quat.toUnit, hlength, Quat.divide, stretched, Quat.conjugate]
  obtain ⟨hnorm, hworld⟩ := unmount_keeps_world hmount stretched Sample.accel hmem
  rw [haccel] at hworld
  refine ⟨hmount, hmem, haccel, hnorm, hworld.trans ?_⟩
  rw [Quat.rotate_eq]
  norm_num [stretched]

end Intake

end RideHud
