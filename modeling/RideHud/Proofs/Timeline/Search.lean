import RideHud.Proofs.Timeline.Lookup

/-!
# The contract of a search

Whether a search succeeds is told by its guards alone: there are two records at least, the hint is a
place, and the last record is later (`exists_lookup_iff`). Each failure has one reason
(`lookup_eq_error_iff`), and that no later record was found is the reason only for a single record.
The scan never starts beyond the end of the records (`checkedLookup?_eq`). Nothing is asked of the
order of the records.
-/

namespace RideHud.Timeline

variable {β : Type} [Stamped β] {records : List β} {hint : ℕ} {target : Micros}

/-! ## Success and failure -/

/-- **The guards tell whether a search succeeds.** -/
theorem exists_lookup_iff : (∃ place, lookup records hint target = .ok place) ↔
    2 ≤ records.length ∧ hint < records.length ∧
      ∃ last, records.getLast? = some last ∧ target < Stamped.time last := by
  constructor
  · rintro ⟨place, hplace⟩
    obtain ⟨hhint, hlast, hle, ⟨r, hr, -⟩, -⟩ := lookup_eq_ok_iff.mp hplace
    have hlt := (List.getElem?_eq_some_iff.mp hr).1
    exact ⟨by omega, hhint, hlast⟩
  · rintro ⟨htwo, hhint, last, hlast, hlater⟩
    exact exists_lookup_eq_ok hhint htwo hlast hlater

/-- When a search fails for a reason. -/
def Fails (records : List β) (hint : ℕ) (target : Micros) : LookupFailure → Prop
  | .empty => records = []
  | .hintOutside h n => records ≠ [] ∧ records.length ≤ hint ∧ h = hint ∧ n = records.length
  | .pastLast t => hint < records.length ∧
      ∃ last, records.getLast? = some last ∧ Stamped.time last ≤ target ∧ t = Stamped.time last
  | .noLater => hint < records.length ∧ records.length = 1 ∧
      ∃ last, records.getLast? = some last ∧ target < Stamped.time last

/-- A search that fails for a reason tells it. -/
theorem Fails.lookup_eq {failure : LookupFailure} (h : Fails records hint target failure) :
    lookup records hint target = .error ⟨target, failure⟩ := by
  unfold lookup
  cases failure with
  | empty =>
      obtain rfl : records = [] := h
      rfl
  | hintOutside h' n =>
      obtain ⟨hne, hle, rfl, rfl⟩ := h
      rw [List.getLast?_eq_some_getLast hne]
      exact if_pos hle
  | pastLast t =>
      obtain ⟨hhint, last, hlast, hpast, rfl⟩ := h
      rw [hlast]
      dsimp only
      rw [if_neg (Nat.not_le.mpr hhint), if_pos hpast]
  | noLater =>
      obtain ⟨hhint, hone, last, hlast, hlater⟩ := h
      -- The scan starts behind the only record.
      have hdrop : records.drop (max hint 1) = [] := List.drop_eq_nil_of_le (by omega)
      rw [hlast]
      dsimp only
      rw [if_neg (Nat.not_le.mpr hhint), if_neg (UInt64.not_le.mpr hlater), hdrop]
      rfl

/-- A search succeeds, or it fails for a reason. -/
theorem exists_lookup_or_fails (records : List β) (hint : ℕ) (target : Micros) :
    (∃ place, lookup records hint target = .ok place) ∨
      ∃ failure, Fails records hint target failure := by
  cases hlast : records.getLast? with
  | none => exact .inr ⟨.empty, List.getLast?_eq_none_iff.mp hlast⟩
  | some last =>
      have hne : records ≠ [] := List.ne_nil_of_mem (List.mem_of_getLast? hlast)
      have hpos := List.length_pos_of_ne_nil hne
      rcases Nat.lt_or_ge hint records.length with hhint | hhint
      · by_cases hlater : target < Stamped.time last
        · by_cases htwo : 2 ≤ records.length
          · exact .inl (exists_lookup_iff.mpr ⟨htwo, hhint, last, hlast, hlater⟩)
          · exact .inr ⟨.noLater, hhint, by omega, last, hlast, hlater⟩
        · exact .inr ⟨.pastLast _, hhint, last, hlast, UInt64.not_lt.mp hlater, rfl⟩
      · exact .inr ⟨.hintOutside _ _, hne, hhint, rfl, rfl⟩

/-- **Each failure has one reason**, and tells the time that was looked up. -/
theorem lookup_eq_error_iff {e : LookupError} : lookup records hint target = .error e ↔
    e.target = target ∧ Fails records hint target e.failure := by
  constructor
  · intro h
    rcases exists_lookup_or_fails records hint target with ⟨place, hplace⟩ | ⟨failure, hfails⟩
    · cases hplace.symm.trans h
    · obtain rfl := Except.error.inj (hfails.lookup_eq.symm.trans h)
      exact ⟨rfl, hfails⟩
  · obtain ⟨_, failure⟩ := e
    rintro ⟨rfl, hfails⟩
    exact hfails.lookup_eq

/-! ## Slices -/

/-- The records from a place on, if that is not beyond their end. -/
def slice? {β : Type} (records : List β) (start : ℕ) : Option (List β) :=
  if start ≤ records.length then some (records.drop start) else none

/-- The search as it would be if it came to nothing wherever it sliced beyond the end. -/
def checkedLookup? (records : List β) (hint : ℕ) (target : Micros) :
    Option (Except LookupError ℕ) :=
  match records.getLast? with
  | none => some (.error ⟨target, .empty⟩)
  | some last =>
    if records.length ≤ hint then some (.error ⟨target, .hintOutside hint records.length⟩)
    else if Stamped.time last ≤ target then some (.error ⟨target, .pastLast (Stamped.time last)⟩)
    else
      let start := max hint 1
      (slice? records start).map fun rest =>
        match rest.findIdx? fun r => target < Stamped.time r with
        | some k => .ok (start + k)
        | none => .error ⟨target, .noLater⟩

/-- **A search never slices beyond the end.** -/
theorem checkedLookup?_eq (records : List β) (hint : ℕ) (target : Micros) :
    checkedLookup? records hint target = some (lookup records hint target) := by
  unfold checkedLookup? lookup
  cases records.getLast? with
  | none => rfl
  | some last =>
      dsimp only
      split
      · rfl
      · next hhint =>
          split
          · rfl
          · rw [slice?, if_pos (by omega)]
            rfl

/-! ## The contract -/

/-- **A search finds the first later record**, or it tells the time that it has found none for. For
all records, in order or not, every hint and every time: a search succeeds if and only if there are
two records at least, the hint is a place and the last record is later. What it finds is a place
from the hint on, but not before the second record; the record there is later, and none before it
from the hint on is. A failure carries the time and has its one reason, and the scan never starts
beyond the end. -/
theorem lookup_finds_first_later (records : List β) (hint : ℕ) (target : Micros) :
    ((∃ place, lookup records hint target = .ok place) ↔
      2 ≤ records.length ∧ hint < records.length ∧
        ∃ last, records.getLast? = some last ∧ target < Stamped.time last) ∧
    (∀ place, lookup records hint target = .ok place →
      max hint 1 ≤ place ∧ place < records.length ∧
        (∃ r, records[place]? = some r ∧ target < Stamped.time r) ∧
        ∀ j r, max hint 1 ≤ j → j < place → records[j]? = some r → Stamped.time r ≤ target) ∧
    (∀ e, lookup records hint target = .error e ↔
      e.target = target ∧ Fails records hint target e.failure) ∧
    checkedLookup? records hint target = some (lookup records hint target) := by
  refine ⟨exists_lookup_iff, fun place hplace => ?_, fun e => lookup_eq_error_iff,
    checkedLookup?_eq records hint target⟩
  obtain ⟨-, -, hle, ⟨r, hr, hlater⟩, hbefore⟩ := lookup_eq_ok_iff.mp hplace
  exact ⟨hle, (List.getElem?_eq_some_iff.mp hr).1, ⟨r, hr, hlater⟩, hbefore⟩

end RideHud.Timeline
