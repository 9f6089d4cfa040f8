import RideHud.Hud.Frames
import RideHud.Proofs.Text.Shortest

/-!
# Paths of numbered frames

Whatever folder frames are written to, and whatever their names start with, no two numbers have the
same path (`FrameWriter.path_injective`), and every path tells that the frame is a portable network
graphic (`FrameWriter.formatOf_path`). So whether a frame is written is up to the storage alone
(`FrameWriter.write_eq`).
-/

namespace RideHud

/-! ## Names in a path -/

namespace Path

/-- Behind the last separator comes the last piece. -/
theorem exists_getLast?_splitOn {separator : Char} {tail : List Char} (htail : separator ∉ tail)
    (before : List Char) :
    ∃ front, ((before ++ tail).splitOn separator).getLast? = some (front ++ tail) := by
  -- If there is a separator before, what is behind it is shorter.
  induction hlength : before.length using Nat.strong_induction_on generalizing before with
  | _ n ih =>
      by_cases hmem : separator ∈ before
      · obtain ⟨xs, ys, rfl⟩ := List.append_of_mem hmem
        rw [List.length_append, List.length_cons] at hlength
        obtain ⟨front, hfront⟩ := ih ys.length (by omega) ys rfl
        refine ⟨front, ?_⟩
        rw [List.append_assoc, List.cons_append, List.splitOn_append_cons_self,
          List.getLast?_append, hfront]
        rfl
      · have hnone : separator ∉ before ++ tail := by
          rw [List.mem_append]
          rintro (h | h)
          · exact hmem h
          · exact htail h
        refine ⟨before, ?_⟩
        rw [List.splitOn_eq_singleton hnone]
        rfl

/-- The last piece of a path is the name of a file, if it does not end with a point. -/
theorem fileName?_eq_some {path : String} {name : List Char} {c : Char}
    (h : (path.toList.splitOn '/').getLast? = some name) (hlast : name.getLast? = some c)
    (hc : c ≠ '.') : fileName? path = some (String.ofList name) := by
  have hne : ∀ other : List Char, other.getLast? ≠ some c → String.ofList name ≠ .ofList other := by
    rintro other hother heq
    exact hother (String.ofList_injective heq ▸ hlast)
  have hempty : String.ofList name ≠ "" := hne [] (by simp)
  have hhere : String.ofList name ≠ "." := hne ['.'] (by simpa using hc.symm)
  have hback : String.ofList name ≠ ".." := hne ['.', '.'] (by simpa using hc.symm)
  obtain ⟨front, hfront⟩ := List.getLast?_eq_some_iff.mp h
  have hnames : (names path).getLast? = some (String.ofList name) := by
    rw [names, pieces, hfront, List.map_append, List.filter_append]
    simp [hempty, hhere]
  unfold fileName?
  rw [hnames]
  split
  · next heq => exact absurd (Option.some.inj heq) hback
  · rfl

/-- **What follows the last point of a file name is its extension**, if something stands before. -/
theorem extension?_eq_some {path : String} {before stem extension : List Char}
    (hpath : path.toList = before ++ (stem ++ '.' :: extension)) (hstem : stem ≠ [])
    (hextension : extension ≠ []) (hslash : '/' ∉ stem ++ '.' :: extension)
    (hdot : '.' ∉ stem ∧ '.' ∉ extension) :
    extension? path = some (String.ofList extension) := by
  obtain ⟨front, hfront⟩ := exists_getLast?_splitOn hslash before
  obtain ⟨front', hfront'⟩ := exists_getLast?_splitOn hdot.1 front
  obtain ⟨c, hlast⟩ := Option.ne_none_iff_exists'.mp (List.getLast?_eq_none_iff.not.mpr hextension)
  have hname : (front ++ (stem ++ '.' :: extension)).getLast? = some c := by
    rw [← List.append_assoc, List.append_cons, List.getLast?_append, hlast]
    rfl
  have hc : c ≠ '.' := by
    rintro rfl
    exact hdot.2 (List.mem_of_getLast? hlast)
  rw [← hpath] at hfront
  have hfile := fileName?_eq_some hfront hname hc
  -- The name has the pieces of what stands before its last point, and the extension.
  have hpieces : (front ++ (stem ++ '.' :: extension)).splitOn '.'
      = (front ++ stem).splitOn '.' ++ [extension] := by
    rw [← List.append_assoc, List.splitOn_append_cons_self, List.splitOn_eq_singleton hdot.2]
  obtain ⟨others, hothers⟩ := List.getLast?_eq_some_iff.mp hfront'
  unfold extension?
  rw [hfile, Option.bind_eq_bind, Option.bind_some, pieces, String.toList_ofList, hpieces, hothers]
  simp [hstem]

end Path

namespace FrameWriter

open Decimal

/-- The number of a frame is written with digits only. -/
theorem isDigit_of_mem_padded {width n : ℕ} {c : Char} (hc : c ∈ (padded width n).toList) :
    c.isDigit := by
  rw [toList_padded, List.mem_append] at hc
  rcases hc with hc | hc
  · rw [List.eq_of_mem_replicate hc]
    decide
  · exact isDigit_toDigits n c hc

/-- The number of a frame can be read back. -/
theorem ofDigitChars_padded (width n : ℕ) :
    Nat.ofDigitChars 10 (padded width n).toList 0 = n := by
  rw [toList_padded, Nat.ofDigitChars_append, Nat.ofDigitChars_replicate_zero, mul_zero,
    Nat.ofDigitChars_ten_toDigits]

theorem toList_padded_ne_nil (width n : ℕ) : (padded width n).toList ≠ [] := by
  rw [toList_padded]
  exact List.append_ne_nil_of_right_ne_nil _ Nat.toDigits_ne_nil

/-- Whether the name of a frame starts from the root of all paths does not depend on its number. -/
theorem isAbsolute_name (head : String) (n : ℕ) :
    Path.isAbsolute (head ++ padded 6 n ++ ".png") = Path.isAbsolute head := by
  have hslash : ∀ l : List Char, "/".toList <+: l ↔ l.head? = some '/' := by
    intro l
    show ['/'] <+: l ↔ _
    cases l with
    | nil => simp
    | cons d ds => simp [eq_comm]
  unfold Path.isAbsolute
  rw [Bool.eq_iff_iff, String.startsWith_string_iff, String.startsWith_string_iff, hslash, hslash,
    String.toList_append, String.toList_append]
  cases head.toList with
  | cons d ds => rfl
  | nil =>
      -- A digit is no slash.
      obtain ⟨c, cs, hdigits⟩ := List.exists_cons_of_ne_nil (toList_padded_ne_nil 6 n)
      have hc : c.isDigit := isDigit_of_mem_padded (hdigits ▸ List.mem_cons_self)
      rw [hdigits]
      constructor
      · intro h
        exact absurd (Option.some.inj h) (ne_of_isDigit hc rfl)
      · intro h
        cases h

/-- The paths of frames differ in their numbers alone. -/
theorem exists_toList_path (w : FrameWriter) :
    ∃ before : List Char, ∀ n,
      (w.path n).toList = before ++ ((padded 6 n).toList ++ '.' :: ['p', 'n', 'g']) := by
  have hname : ∀ n, (w.head ++ padded 6 n ++ ".png").toList
      = w.head.toList ++ ((padded 6 n).toList ++ '.' :: ['p', 'n', 'g']) := by
    intro n
    rw [String.toList_append, String.toList_append, List.append_assoc]
    rfl
  unfold path Path.join
  simp only [isAbsolute_name]
  split
  · exact ⟨_, hname⟩
  · split
    · refine ⟨w.folder.toList ++ w.head.toList, fun n => ?_⟩
      rw [String.toList_append, hname, List.append_assoc]
    · refine ⟨w.folder.toList ++ "/".toList ++ w.head.toList, fun n => ?_⟩
      rw [String.toList_append, String.toList_append, hname, ← List.append_assoc]

/-- **No two numbers have the same path.** -/
theorem path_injective (w : FrameWriter) : Function.Injective w.path := by
  obtain ⟨before, hpath⟩ := w.exists_toList_path
  intro n n' h
  have hlist := congrArg String.toList h
  rw [hpath, hpath] at hlist
  have hdigits := List.append_cancel_right (List.append_cancel_left hlist)
  rw [← ofDigitChars_padded 6 n, hdigits, ofDigitChars_padded]

/-- **Frames are portable network graphics**, as their paths tell. -/
theorem formatOf_path (w : FrameWriter) (n : ℕ) : Picture.formatOf (w.path n) = .ok "Png" := by
  obtain ⟨before, hpath⟩ := w.exists_toList_path
  have hdigit : ∀ c : Char, c.isDigit = false → c ∉ (padded 6 n).toList := by
    intro c hc hmem
    exact absurd (isDigit_of_mem_padded hmem) (by rw [hc]; exact Bool.false_ne_true)
  have hslash : '/' ∉ (padded 6 n).toList ++ '.' :: ['p', 'n', 'g'] := by
    rw [List.mem_append]
    rintro (h | h)
    · exact hdigit '/' rfl h
    · revert h
      decide
  have hextension : Path.extension? (w.path n) = some (String.ofList ['p', 'n', 'g']) :=
    Path.extension?_eq_some (hpath n) (toList_padded_ne_nil 6 n) (List.cons_ne_nil _ _) hslash
      ⟨hdigit '.' rfl, by decide⟩
  have hlower : (String.ofList ['p', 'n', 'g']).map Char.toLower = "png" := by
    rw [← String.toList_inj, String.toList_map]
    rfl
  unfold Picture.formatOf
  rw [hextension]
  dsimp only
  rw [hlower]
  rfl

/-- A frame is written under the next number, and takes it if it is stored. -/
theorem write_eq {m : Type → Type} [Monad m] [LawfulMonad m] [Storage m] (w : FrameWriter)
    (r : Raster) :
    (w.write r : m _)
      = (fun written => (written.map fun _ => w.path w.written,
          { w with written := w.written + if written.isOk then 1 else 0 })) <$>
        Storage.write (w.path w.written) (Thunk.mk fun _ => Png.encode r) := by
  have hsave : (Picture.save (w.path w.written) r : m _)
      = Storage.write (w.path w.written) (Thunk.mk fun _ => Png.encode r) := by
    rw [Picture.save, w.formatOf_path]
    rfl
  unfold write
  dsimp only
  rw [map_eq_pure_bind, hsave]
  apply bind_congr
  intro written
  cases written <;> rfl

end FrameWriter

end RideHud
