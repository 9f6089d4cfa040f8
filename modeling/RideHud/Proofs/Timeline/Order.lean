import Mathlib.Data.List.Basic
import Mathlib.Data.Nat.Find
import RideHud.Sample

/-!
# Records in order of time

Records are in order if none is older than one before it. That is so if none steps back, which
looks at neighbours only.

* `ordered_take`: records are in order up to the first one that steps back;
* `exists_first_stepsBack`: if some record steps back, there is a first one.
-/

namespace RideHud.Timeline

variable {β : Type} [Stamped β] {records : List β}

/-- No record is older than one before it. -/
def Ordered (records : List β) : Prop :=
  records.Pairwise fun a b => Stamped.time a ≤ Stamped.time b

/-- The last of records in order is not older than any other. -/
theorem Ordered.le_last {a b : β} (h : Ordered (records ++ [b])) (ha : a ∈ records) :
    Stamped.time a ≤ Stamped.time b :=
  (List.pairwise_append.mp h).2.2 a ha b (List.mem_singleton_self b)

/-- `b` comes right after `a`, which has the place `i`, and is older. -/
def StepsBack (records : List β) (i : ℕ) (a b : β) : Prop :=
  records[i]? = some a ∧ records[i + 1]? = some b ∧ Stamped.time b < Stamped.time a

/-- As long as no record steps back, times do not decrease. -/
theorem time_le_of_not_stepsBack {n : ℕ} (h : ∀ j < n, ∀ a b, ¬StepsBack records j a b)
    {i j : ℕ} {a b : β} (hij : i ≤ j) (hj : j ≤ n) (ha : records[i]? = some a)
    (hb : records[j]? = some b) : Stamped.time a ≤ Stamped.time b := by
  induction j generalizing b with
  | zero =>
      obtain rfl : i = 0 := Nat.le_zero.mp hij
      rw [Option.some.inj (ha.symm.trans hb)]
      exact UInt64.le_refl _
  | succ j ih =>
      rcases Nat.eq_or_lt_of_le hij with rfl | hlt
      · rw [Option.some.inj (ha.symm.trans hb)]
        exact UInt64.le_refl _
      · have hlen := (List.getElem?_eq_some_iff.mp hb).1
        have hc := List.getElem?_eq_getElem (l := records) (i := j) (by omega)
        have hle := ih (Nat.le_of_lt_succ hlt) (by omega) hc
        have hstep := UInt64.not_lt.mp fun hback => h j (by omega) _ b ⟨hc, hb, hback⟩
        exact UInt64.le_trans hle hstep

/-- **Records are in order up to the first one that steps back.** -/
theorem ordered_take {n : ℕ} (h : ∀ j < n, ∀ a b, ¬StepsBack records j a b) :
    Ordered (records.take (n + 1)) := by
  unfold Ordered
  rw [List.pairwise_iff_getElem]
  intro i j hi hj hij
  rw [List.length_take] at hi hj
  rw [List.getElem_take, List.getElem_take]
  exact time_le_of_not_stepsBack h (Nat.le_of_lt hij) (by omega)
    (List.getElem?_eq_getElem (by omega)) (List.getElem?_eq_getElem (by omega))

/-- Records none of which steps back are in order. -/
theorem ordered_of_not_stepsBack (h : ¬∃ i a b, StepsBack records i a b) : Ordered records := by
  have htake := ordered_take (n := records.length) fun j _ a b hstep => h ⟨j, a, b, hstep⟩
  rwa [List.take_of_length_le (Nat.le_succ _)] at htake

/-- If some record steps back, there is a first one. -/
theorem exists_first_stepsBack (h : ∃ i a b, StepsBack records i a b) :
    ∃ i a b, StepsBack records i a b ∧ ∀ j < i, ∀ c d, ¬StepsBack records j c d := by
  classical
  obtain ⟨a, b, hstep⟩ := Nat.find_spec h
  exact ⟨Nat.find h, a, b, hstep, fun j hj c d hback => Nat.find_min h hj ⟨c, d, hback⟩⟩

end RideHud.Timeline
