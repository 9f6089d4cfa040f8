import RideHud.Proofs.Series.Landmarks

/-!
# Landmarks are the extremes of their half-cycles

From the landmark before it to the landmark after it, no value is more extreme than a landmark
(`marks_extreme_between`), as long as consecutive values differ. Up to the turn that completes it
this is how a landmark is found. From the turn on it holds because the momentum never exceeds the
way back to the landmark: before the series can pass it, the momentum is used up and the series
turns (`Tracks`).

Landmarks are listed with their places, the latest first.
-/

namespace RideHud

/-! ## The places of marks -/

namespace Mark

/-- The places of the marked entries. -/
theorem places_eq_map (marks : List Mark) :
    places marks = (marks.zipIdx.filter (·.1.isMarked)).map fun (m, i) => (i, m) :=
  List.filter_map

/-- A place is told with its mark. -/
theorem mem_places {marks : List Mark} {p : ℕ × Mark} :
    p ∈ places marks ↔ marks[p.1]? = some p.2 ∧ p.2.isMarked = true := by
  rw [places, List.mem_filter]
  refine and_congr_left fun _ => ?_
  rw [List.mem_map]
  constructor
  · rintro ⟨q, hq, rfl⟩
    exact List.mem_zipIdx_iff_getElem?.mp hq
  · intro h
    exact ⟨(p.2, p.1), List.mem_zipIdx_iff_getElem?.mpr h, rfl⟩

/-- Plain marks have no places. -/
theorem filter_zipIdx_eq_nil {marks : List Mark} (h : ∀ m ∈ marks, m.isMarked = false) (k : ℕ) :
    (marks.zipIdx k).filter (·.1.isMarked) = [] := by
  rw [List.filter_eq_nil_iff]
  intro p hp
  rw [h p.1 (List.fst_mem_of_mem_zipIdx hp)]
  exact Bool.false_ne_true

/-- A mark that is put behind all others is told last. -/
theorem places_set {marks : List Mark} {place : ℕ} {m : Mark}
    (hlast : ∀ p ∈ places marks, p.1 < place) (hlt : place < marks.length)
    (hm : m.isMarked = true) : places (marks.set place m) = places marks ++ [(place, m)] := by
  have hplain : ∀ x ∈ marks.drop place, x.isMarked = false := by
    intro x hx
    obtain ⟨k, hk⟩ := List.mem_iff_getElem?.mp hx
    rw [List.getElem?_drop] at hk
    rw [← Bool.not_eq_true]
    intro hmarked
    exact absurd (hlast (place + k, x) (mem_places.mpr ⟨hk, hmarked⟩)) (by omega)
  have hplain' : ∀ x ∈ marks.drop (place + 1), x.isMarked = false := by
    intro x hx
    rw [← List.drop_drop] at hx
    exact hplain x (List.mem_of_mem_drop hx)
  have hbefore : places marks = places (marks.take place) := by
    conv_lhs => rw [← List.take_append_drop place marks]
    rw [places_eq_map, places_eq_map, List.zipIdx_append, List.filter_append,
      filter_zipIdx_eq_nil hplain, List.append_nil]
  rw [hbefore, List.set_eq_take_append_cons_drop, if_pos hlt, places_eq_map, places_eq_map,
    List.zipIdx_append, List.zipIdx_cons, List.filter_append,
    List.filter_cons_of_pos (p := fun x : Mark × ℕ => x.1.isMarked) hm,
    filter_zipIdx_eq_nil hplain', List.map_append, List.length_take, Nat.min_eq_left hlt.le,
    Nat.zero_add]
  rfl

end Mark

namespace Series

open scoped RideHud.Exact

variable {K : Type} [DivisionRing K] [LinearOrder K]

/-- A mark counts up or down as its kind does. -/
theorem Extremum.toInt_mark_mul (e : Extremum) (v : K) : (e.mark.toInt : K) * v = e.signed v := by
  cases e with
  | peak => exact (congrArg (· * v) Int.cast_one).trans (one_mul v)
  | trough =>
      rw [mark, Mark.toInt, Int.cast_neg, Int.cast_one, neg_one_mul]
      rfl

/-! ## Landmarks and what they top -/

/-- The place of the latest landmark, or the first place of all. -/
def origin (landmarks : List (ℕ × Extremum)) : ℕ := (landmarks.head?.map (·.1)).getD 0

/-- The landmarks as they are told by marks: the first one first. -/
def told (landmarks : List (ℕ × Extremum)) : List (ℕ × Mark) :=
  (landmarks.map fun l => (l.1, l.2.mark)).reverse

/-- A told landmark among those told before and after it. -/
theorem told_eq_append {landmarks : List (ℕ × Extremum)} {before after : List (ℕ × Mark)}
    {place : ℕ} {m : Mark} (h : told landmarks = before ++ (place, m) :: after) :
    ∃ later earlier e, landmarks = later ++ (place, e) :: earlier ∧ m = e.mark ∧
      before.getLast?.map (·.1) = earlier.head?.map (·.1) ∧
      after.head?.map (·.1) = later.getLast?.map (·.1) := by
  rw [told, List.reverse_eq_iff, List.reverse_append, List.reverse_cons, List.append_assoc,
    List.singleton_append, List.map_eq_append_iff] at h
  obtain ⟨later, rest, rfl, hlater, hrest⟩ := h
  obtain ⟨⟨_, e⟩, earlier, rfl, hplace, hearlier⟩ := List.map_eq_cons_iff.mp hrest
  obtain ⟨rfl, rfl⟩ := Prod.mk.inj hplace
  refine ⟨later, earlier, e, rfl, rfl, ?_, ?_⟩
  · rw [← List.head?_reverse, ← hearlier, List.head?_map, Option.map_map]
    rfl
  · rw [← List.getLast?_reverse, ← hlater, List.getLast?_map, Option.map_map]
    rfl

/-- Every landmark is the most extreme value from the landmark before it to the one after it; the
latest one is so up to `stop`. -/
inductive Crests (values : List K) : (stop : ℕ) → List (ℕ × Extremum) → Prop
  | nil {stop : ℕ} : Crests values stop []
  | cons {stop place : ℕ} {e : Extremum} {value : K} {landmarks : List (ℕ × Extremum)}
      (best : Best e values (origin landmarks) stop place value)
      (later : ∀ l ∈ landmarks.head?, l.1 < place) (before : Crests values place landmarks) :
      Crests values stop ((place, e) :: landmarks)

namespace Best

variable {e : Extremum} {values : List K} {start stop stop' place : ℕ} {value v : K}

/-- What is most extreme up to some place is so up to an earlier one. -/
theorem upTo (h : Best e values start stop place value) (hle : stop' ≤ stop)
    (hplace : place ≤ stop') : Best e values start stop' place value where
  start_le := h.start_le
  le_stop := hplace
  get := h.get
  best j w hj hj' hw := h.best j w hj (Nat.le_trans hj' hle) hw

/-- A value that is not more extreme leaves the most extreme one. -/
theorem keep (h : Best e values start stop place value) (hv : values[stop + 1]? = some v)
    (hless : e.signed v ≤ e.signed value) : Best e values start (stop + 1) place value where
  start_le := h.start_le
  le_stop := Nat.le_succ_of_le h.le_stop
  get := h.get
  best j w hj hj' hw := by
    rcases Nat.le_or_eq_of_le_succ hj' with hle | rfl
    · exact h.best j w hj hle hw
    · rwa [← Option.some.inj (hv.symm.trans hw)]

end Best

namespace Crests

variable {values : List K} {stop stop' : ℕ} {landmarks : List (ℕ × Extremum)} {v : K}

/-- No landmark lies behind the latest one. -/
theorem le_origin (h : Crests values stop landmarks) : ∀ l ∈ landmarks, l.1 ≤ origin landmarks := by
  induction h with
  | nil => rintro l ⟨⟩
  | @cons stop place e value landmarks best later before ih =>
      rintro l (_ | ⟨_, hl⟩)
      · exact Nat.le_refl _
      · refine (ih l hl).trans ?_
        cases landmarks with
        | nil => cases hl
        | cons l' ls => exact (later l' rfl).le

/-- The landmarks stay what they are if the stretch behind the latest one is cut short. -/
theorem upTo (h : Crests values stop landmarks) (hle : stop' ≤ stop)
    (hplace : ∀ l ∈ landmarks.head?, l.1 ≤ stop') : Crests values stop' landmarks := by
  cases h with
  | nil => exact .nil
  | cons best later before => exact .cons (best.upTo hle (hplace _ rfl)) later before

/-- One value more, short of the latest landmark. -/
theorem keep (h : Crests values stop landmarks) (hv : values[stop + 1]? = some v)
    (hless : ∀ l ∈ landmarks.head?, ∀ w, values[l.1]? = some w → l.2.signed v ≤ l.2.signed w) :
    Crests values (stop + 1) landmarks := by
  cases h with
  | nil => exact .nil
  | cons best later before =>
      exact .cons (best.keep hv (hless _ rfl _ best.get)) later before

/-- The last value does not pass the latest landmark. -/
theorem signed_le (h : Crests values stop landmarks) (hv : values[stop]? = some v) :
    ∀ l ∈ landmarks.head?, ∀ w, values[l.1]? = some w → l.2.signed v ≤ l.2.signed w := by
  cases h with
  | nil => rintro l ⟨⟩
  | cons best later before =>
      rintro l ⟨⟩ w hw
      rw [Option.some.inj (hw.symm.trans best.get)]
      exact best.best stop v (best.start_le.trans best.le_stop) (Nat.le_refl stop) hv

/-- What a single landmark tops. -/
theorem best_of_append {place : ℕ} {e : Extremum} {after before : List (ℕ × Extremum)}
    (h : Crests values stop (after ++ (place, e) :: before)) :
    ∃ value, Best e values (origin before) ((after.getLast?.map (·.1)).getD stop) place value := by
  induction after generalizing stop with
  | nil =>
      cases h with
      | cons best later before => exact ⟨_, best⟩
  | cons l after ih =>
      cases h with
      | cons best later before =>
          obtain ⟨value, hbest⟩ := ih before
          refine ⟨value, ?_⟩
          rw [List.getLast?_cons]
          cases hlast : after.getLast? with
          | none => rwa [hlast] at hbest
          | some l' => rwa [hlast] at hbest

end Crests

namespace MomentumRule

variable {values : List K} {i stop : ℕ} {y : K} {phase : Phase K} {marks : List Mark}
  {landmarks : List (ℕ × Extremum)} {rule : MomentumRule K}

/-- Writing a landmark down adds it to those that are told. -/
theorem places_write {landmark : Option (ℕ × Extremum)}
    (h : Crests values stop (landmark.toList ++ landmarks))
    (hmarks : Mark.places marks = told landmarks) (hlen : marks.length = values.length) :
    Mark.places (write marks landmark) = told (landmark.toList ++ landmarks) := by
  cases landmark with
  | none => exact hmarks
  | some l =>
      cases h with
      | @cons _ place e _ _ best later before =>
          have hlast : ∀ p ∈ Mark.places marks, p.1 < place := by
            rw [hmarks]
            intro p hp
            obtain ⟨l', hl', rfl⟩ := List.mem_map.mp (List.mem_reverse.mp hp)
            refine (before.le_origin l' hl').trans_lt ?_
            cases landmarks with
            | nil => cases hl'
            | cons l'' ls => exact later l'' rfl
          rw [write, Mark.places_set hlast (hlen ▸ best.lt_length) e.isMarked_mark, hmarks]
          exact List.reverse_cons.symm

/-! ## One step -/

/-- What is known after the value `y` at `i`, and the landmarks so far. What is tracked is the most
extreme value since the latest landmark, which is of the other kind; and the momentum does not
exceed the way back to that landmark. -/
inductive Tracks (values : List K) (i : ℕ) (y : K) : Phase K → List (ℕ × Extremum) → Prop
  | seeking {momentum : K} : Tracks values i y (.seeking momentum) []
  | tracking {e : Extremum} {momentum : K} {place : ℕ} {value : K}
      {landmarks : List (ℕ × Extremum)} (best : Best e values (origin landmarks) i place value)
      (crests : Crests values i landmarks)
      (spent : momentum ≤ 0 → momentum = e.signed (y - value))
      (kind : ∀ l ∈ landmarks.head?, l.2 = e.opposite)
      (later : ∀ l ∈ landmarks.head?, l.1 < place)
      (short : ∀ l ∈ landmarks.head?, ∀ w, values[l.1]? = some w → momentum ≤ e.signed (y - w)) :
      Tracks values i y (.tracking e momentum place value) landmarks

section

variable {e : Extremum} {momentum value y' : K} {place : ℕ}

theorem Tracks.crests (h : Tracks values i y phase landmarks) : Crests values i landmarks := by
  cases h with
  | seeking => exact .nil
  | tracking best crests spent kind later short => exact crests

/-- The value does not pass what is tracked. -/
theorem Tracks.signed_le (h : Tracks values i y (.tracking e momentum place value) landmarks)
    (hy : values[i]? = some y) : e.signed y ≤ e.signed value := by
  cases h with
  | tracking best crests spent kind later short =>
      exact best.best i y (best.start_le.trans best.le_stop) (Nat.le_refl i) hy

theorem Tracks.spent (h : Tracks values i y (.tracking e momentum place value) landmarks) :
    momentum ≤ 0 → momentum = e.signed (y - value) := by
  cases h with
  | tracking best crests spent kind later short => exact spent

/-- The last landmark is the most extreme value since the one before it. -/
theorem crests_trailing (n : ℕ) (last : K) (h : Tracks values i y phase landmarks) :
    Crests values i ((trailing n last phase).toList ++ landmarks) := by
  cases h with
  | seeking => exact .nil
  | tracking best crests spent kind later short =>
      simp only [trailing]
      split
      · exact .cons best later (crests.upTo best.le_stop fun l hl => (later l hl).le)
      · exact crests

variable [IsStrictOrderedRing K]

/-- **The momentum does not exceed the way back.** If it does not exceed the way from `y` back to a
value that `y` does not pass, a step changes it by no more than it changes the way. -/
theorem momentum_le_way {friction w : K} (hfriction : 0 ≤ friction) (hone : friction ≤ 1)
    (hpast : e.signed w ≤ e.signed y) (h : momentum ≤ e.signed (y - w)) :
    momentum * (1 - friction) + e.signed (y' - y) ≤ e.signed (y' - w) := by
  rw [Extremum.signed_sub] at h ⊢
  rw [Extremum.signed_sub]
  have hleft : momentum * (1 - friction) ≤ e.signed y - e.signed w := by
    rcases le_total 0 momentum with hpos | hneg
    · exact (mul_le_of_le_one_right hpos (sub_le_self 1 hfriction)).trans h
    · exact (mul_nonpos_of_nonpos_of_nonneg hneg (sub_nonneg.mpr hone)).trans
        (sub_nonneg.mpr hpast)
  calc momentum * (1 - friction) + (e.signed y' - e.signed y)
      ≤ e.signed y - e.signed w + (e.signed y' - e.signed y) := by gcongr
    _ = e.signed y' - e.signed w := by abel

/-- A turn makes a landmark of what is tracked, and starts over in the other direction. -/
theorem Tracks.turn (h : Tracks values i y (.tracking e momentum place value) landmarks)
    (hy : values[i]? = some y) (hy' : values[i + 1]? = some y')
    (hback : e.signed y' ≤ e.signed value)
    (hshort : e.signed y < e.signed value ∨ e.signed y' < e.signed value) :
    let other := extremeSince e.opposite values place (i + 1) y'
    Tracks values (i + 1) y'
      (.tracking e.opposite (e.opposite.signed (y' - other.2)) other.1 other.2)
      ((place, e) :: landmarks) := by
  have hi' : i + 1 < values.length := (List.getElem?_eq_some_iff.mp hy').1
  cases h with
  | tracking best crests spent kind later short =>
      have hother := Best.extremeSince (e := e.opposite) (Nat.le_succ_of_le best.le_stop) hi' y'
      refine .tracking hother (.cons (best.keep hy' hback) later
        (crests.upTo best.le_stop fun l hl => (later l hl).le)) (fun _ => rfl) ?_ ?_ ?_
      · rintro l ⟨⟩
        exact e.opposite_opposite.symm
      · rintro l ⟨⟩
        exact best.lt_extremeSince hy hy' hshort
      · -- The way to the new extreme is no longer than the way back to the landmark.
        rintro l ⟨⟩ w hw
        rw [Extremum.signed_sub, Extremum.signed_sub]
        exact sub_le_sub_left (hother.best place w (Nat.le_refl _)
          (Nat.le_succ_of_le best.le_stop) hw) _

/-- A series that has momentum left does not pass the latest landmark. -/
theorem Tracks.proceed (hfriction : 0 ≤ rule.friction) (hone : rule.friction ≤ 1)
    (h : Tracks values i y (.tracking e momentum place value) landmarks)
    (hy : values[i]? = some y) (hy' : values[i + 1]? = some y')
    (hgoes : ¬ momentum * (1 - rule.friction) + e.signed (y' - y) ≤ 0) :
    let best := if e.beats y' value then (i + 1, y') else (place, value)
    Tracks values (i + 1) y'
      (.tracking e (momentum * (1 - rule.friction) + e.signed (y' - y)) best.1 best.2)
      landmarks := by
  cases h with
  | tracking best crests spent kind later short =>
      have hway : ∀ l ∈ landmarks.head?, ∀ w, values[l.1]? = some w →
          momentum * (1 - rule.friction) + e.signed (y' - y) ≤ e.signed (y' - w) := by
        intro l hl w hw
        have hpast := crests.signed_le hy l hl w hw
        rw [kind l hl, Extremum.signed_opposite_le_iff] at hpast
        exact momentum_le_way hfriction hone hpast (short l hl w hw)
      refine .tracking (best.next hy') (crests.keep hy' fun l hl w hw => ?_)
        (fun hspent => absurd hspent hgoes) kind (fun l hl => ?_) hway
      · -- There is momentum left, so there is some way left too.
        have hleft := (not_le.mp hgoes).trans_le (hway l hl w hw)
        rw [Extremum.signed_sub, sub_pos] at hleft
        rw [kind l hl, Extremum.signed_opposite_le_iff]
        exact hleft.le
      · split
        · exact (later l hl).trans_le (Nat.le_succ_of_le best.le_stop)
        · exact later l hl

/-- **A step keeps track** of a series that does not stand still. -/
theorem tracks_step (hfriction : 0 ≤ rule.friction) (hone : rule.friction ≤ 1)
    (hstart : 0 ≤ rule.start) (h : Tracks values i y phase landmarks)
    (hy : values[i]? = some y) (hy' : values[i + 1]? = some y') (hne : y' ≠ y) :
    Tracks values (i + 1) y' (rule.step values (i + 1) y' (y' - y) phase).1
      ((rule.step values (i + 1) y' (y' - y) phase).2.toList ++ landmarks) := by
  cases phase with
  | seeking momentum =>
      cases h
      rw [step_seeking]
      split
      · next hknown =>
          have hi' : i + 1 < values.length := (List.getElem?_eq_some_iff.mp hy').1
          exact .tracking (Best.extremeSince (Nat.zero_le _) hi' y') .nil
            (fun hspent => absurd hspent (hstart.trans_lt hknown).not_ge) nofun nofun nofun
      · exact .seeking
  | tracking e momentum place value =>
      rw [step_tracking]
      dsimp only
      split
      · next hturn =>
          obtain ⟨hback, hshort⟩ := short_of_turn hfriction hone (h.signed_le hy) h.spent
            (fun _ => hne) hturn
          rw [if_neg (by rw [Extremum.beats_iff]; exact hback.not_gt)]
          exact h.turn hy hy' hback hshort
      · next hgoes => exact h.proceed hfriction hone hy hy' hgoes

end

/-! ## All steps -/

variable [IsStrictOrderedRing K]

/-- **A run keeps track** of a series that does not stand still. -/
theorem tracks_run (hfriction : 0 ≤ rule.friction) (hone : rule.friction ≤ 1)
    (hstart : 0 ≤ rule.start) {previous : K × K} {points : List (K × K)}
    (h : Tracks values i previous.2 phase landmarks)
    (hmarks : Mark.places marks = told landmarks) (hlen : marks.length = values.length)
    (hx : (previous :: points).IsChain fun p q => p.1 < q.1)
    (hy : (previous :: points).IsChain fun p q => p.2 ≠ q.2)
    (hvalues : values.drop i = (previous :: points).map (·.2)) :
    ∃ landmarks',
      Tracks values (i + points.length) (points.getLastD previous).2
        (rule.run values (i + 1) previous points phase marks).1 landmarks' ∧
      Mark.places (rule.run values (i + 1) previous points phase marks).2 = told landmarks' ∧
      (rule.run values (i + 1) previous points phase marks).2.length = values.length := by
  induction points generalizing i previous phase marks landmarks with
  | nil => exact ⟨landmarks, h, hmarks, hlen⟩
  | cons point points ih =>
      obtain ⟨hrise, hx⟩ := List.isChain_cons_cons.mp hx
      obtain ⟨hne, hy⟩ := List.isChain_cons_cons.mp hy
      have hget : ∀ k, values[i + k]? = ((previous :: point :: points).map (·.2))[k]? := by
        intro k
        rw [← hvalues, List.getElem?_drop]
      have hdrop : values.drop (i + 1) = (point :: points).map (·.2) := by
        rw [← List.drop_drop, hvalues]
        rfl
      have hstep := tracks_step hfriction hone hstart h (hget 0) (hget 1) hne.symm
      rw [run, rise_of_lt hrise, List.getLastD_cons, List.length_cons, Nat.add_comm points.length,
        ← Nat.add_assoc]
      exact ih hstep (places_write hstep.crests hmarks hlen) ((length_write _ _).trans hlen)
        hx hy hdrop

/-- The marks of a series tell landmarks, each of which tops what lies between its neighbours. -/
theorem exists_crests_marks (hfriction : 0 ≤ rule.friction) (hone : rule.friction ≤ 1)
    (hstart : 0 ≤ rule.start) {points : List (K × K)}
    (hx : points.IsChain fun p q => p.1 < q.1) (hy : points.IsChain fun p q => p.2 ≠ q.2) :
    ∃ landmarks, Crests (points.map (·.2)) (points.length - 1) landmarks ∧
      Mark.places (rule.marks points) = told landmarks := by
  cases points with
  | nil => exact ⟨[], .nil, rfl⟩
  | cons point points =>
      have hplain : Mark.places (List.replicate (points.length + 1) Mark.plain) = told [] := by
        refine List.eq_nil_iff_forall_not_mem.mpr fun p hp => ?_
        obtain ⟨hget, hmarked⟩ := Mark.mem_places.mp hp
        rw [List.eq_of_mem_replicate (List.mem_of_getElem? hget)] at hmarked
        exact Bool.false_ne_true hmarked
      have hseek : Tracks ((point :: points).map (·.2)) 0 point.2 (.seeking (Nat.cast 0)) [] :=
        .seeking
      obtain ⟨landmarks, hrun, hmarks, hlen⟩ :=
        tracks_run hfriction hone hstart hseek hplain (by simp) hx hy rfl
      have hlast := crests_trailing (points.length + 1) (points.getLastD point).2 hrun
      rw [Nat.zero_add] at hlast
      exact ⟨_, hlast, places_write hlast hmarks hlen⟩

/-- **Landmarks are the extremes of their half-cycles.** For every series of exact numbers that does
not stand still, over increasing abscissas, every friction up to one and every threshold from zero
on: whatever place is marked, no value from the place marked before it (or the first place) to the
place marked after it (or the last place) is higher than its value if the mark is high, or lower if
it is low. -/
theorem marks_extreme_between {rule : MomentumRule K} (hfriction : 0 ≤ rule.friction)
    (hone : rule.friction ≤ 1) (hstart : 0 ≤ rule.start) {points : List (K × K)}
    (hx : points.IsChain fun p q => p.1 < q.1) (hy : points.IsChain fun p q => p.2 ≠ q.2)
    {before after : List (ℕ × Mark)} {place : ℕ} {m : Mark}
    (hplace : Mark.places (rule.marks points) = before ++ (place, m) :: after) :
    ∃ y, (points.map (·.2))[place]? = some y ∧
      ∀ j v, (before.getLast?.map (·.1)).getD 0 ≤ j →
        j ≤ (after.head?.map (·.1)).getD (points.length - 1) →
        (points.map (·.2))[j]? = some v → (m.toInt : K) * v ≤ m.toInt * y := by
  obtain ⟨landmarks, hcrests, htold⟩ := exists_crests_marks hfriction hone hstart hx hy
  obtain ⟨later, earlier, e, rfl, rfl, hbefore, hafter⟩ :=
    told_eq_append (htold.symm.trans hplace)
  obtain ⟨y, hbest⟩ := hcrests.best_of_append
  refine ⟨y, hbest.get, fun j v hj hj' hv => ?_⟩
  rw [hbefore] at hj
  rw [hafter] at hj'
  rw [Extremum.toInt_mark_mul, Extremum.toInt_mark_mul]
  exact hbest.best j v hj hj' hv

/-- A series with two small setbacks on its way. -/
def setbacks : List (ℚ × ℚ) :=
  [(0, 2), (1, 0), (2, 4), (3, 9), (5, 8), (6, 10), (7, 6), (8, 2), (9, 3), (10, -3), (12, 1)]

/-- Its peak tops all that lies between its two troughs. -/
theorem extreme_of_setbacks :
    0 ≤ (halving 1).friction ∧ (halving 1).friction ≤ 1 ∧ 0 ≤ (halving 1).start ∧
      setbacks.IsChain (fun p q => p.1 < q.1) ∧ setbacks.IsChain (fun p q => p.2 ≠ q.2) ∧
      Mark.places ((halving 1).marks setbacks) = [(1, .low), (5, .high), (9, .low)] ∧
      ∃ y, (setbacks.map (·.2))[5]? = some y ∧ ∀ j v, 1 ≤ j → j ≤ 9 →
        (setbacks.map (·.2))[j]? = some v → (Mark.high.toInt : ℚ) * v ≤ Mark.high.toInt * y := by
  have hfriction : 0 ≤ (halving 1).friction := by decide +kernel
  have hone : (halving 1).friction ≤ 1 := by decide +kernel
  have hstart : 0 ≤ (halving 1).start := by decide +kernel
  have hx : setbacks.IsChain (fun p q => p.1 < q.1) := by decide +kernel
  have hy : setbacks.IsChain (fun p q => p.2 ≠ q.2) := by decide +kernel
  have hplaces : Mark.places ((halving 1).marks setbacks)
      = [(1, .low)] ++ (5, .high) :: [(9, .low)] := by decide +kernel
  exact ⟨hfriction, hone, hstart, hx, hy, hplaces,
    marks_extreme_between hfriction hone hstart hx hy hplaces⟩

end MomentumRule

end Series

end RideHud
