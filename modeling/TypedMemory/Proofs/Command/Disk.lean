import TypedMemory.Command.Disk
import TypedMemory.Command.Run

/-!
# Files after one is written

Writing a file to a path changes what is found there and nowhere else. The reason is that a path
only leads somewhere if all directories on the way are there already
(`TypedMemory.Disk.isReachable_of_place`): so a new file makes no new directory, and one that is
replaced is still in the directories it was in. Hence every path leads after the writing to the
place it led to before (`TypedMemory.Disk.place_write`), and there is found what was found, unless
it is the place that was written to.
-/

namespace TypedMemory.Disk

variable {files : Files} {path other : Text} {place place' q : Place} {names : List Text}
  {contents data : Bytes}

/-! ### Directories on the way -/

/-- A directory is one that is always there, or it has files in it or below it. -/
theorem isDirectory_iff : isDirectory files place = true ↔
    ((∀ name ∈ place, name = up) ∨ place ∈ systemDirectories) ∨
      ∃ f ∈ files, place <+: f.1 ∧ place ≠ f.1 := by
  simp [isDirectory]

theorem isDirectory_of_forall_up (h : ∀ name ∈ place, name = up) :
    isDirectory files place = true :=
  isDirectory_iff.mpr (Or.inl (Or.inl h))

/-- All directories above a place are there. -/
def IsReachable (files : Files) (place : Place) : Prop :=
  ∀ q, q <+: place → q ≠ place → isDirectory files q = true

theorem IsReachable.append (h : IsReachable files place) (hdir : isDirectory files place = true)
    (name : Text) : IsReachable files (place ++ [name]) := by
  intro q hq hne
  rcases List.prefix_concat_iff.mp hq with rfl | hq
  · exact absurd rfl hne
  · by_cases heq : q = place
    · rwa [heq]
    · exact h q hq heq

theorem isReachable_of_forall_up (h : ∀ name ∈ place, name = up) : IsReachable files place :=
  fun _ hq _ => isDirectory_of_forall_up fun name hname => h name (hq.subset hname)

theorem isReachable_nil : IsReachable files [] :=
  isReachable_of_forall_up nofun

theorem isReachable_top : IsReachable files top :=
  isReachable_nil.append (isDirectory_of_forall_up nofun) topName

theorem IsReachable.above (h : IsReachable files place) : IsReachable files (above place) := by
  rw [Disk.above]
  split
  · exact isReachable_top
  · split
    next hup =>
      simp only [List.all_eq_true, decide_eq_true_eq] at hup
      exact isReachable_of_forall_up (List.forall_mem_cons.mpr ⟨rfl, hup⟩)
    next hup =>
      intro q hq hne
      -- What is above the directory above is above the place, and is not the place itself.
      refine h q (hq.trans place.dropLast_prefix) fun heq => hne ?_
      have hlength := heq ▸ hq.length_le
      rw [List.length_dropLast] at hlength
      have hnil : place = [] := List.eq_nil_of_length_eq_zero (by omega)
      rw [heq, hnil, List.dropLast_nil]

/-- Going along a path keeps it so that all directories above are there. -/
theorem IsReachable.walk (h : IsReachable files place)
    (hwalk : walk files place names = .ok place') : IsReachable files place' := by
  induction names generalizing place with
  | nil =>
    cases hwalk
    exact h
  | cons name rest ih =>
    rw [Disk.walk] at hwalk
    split at hwalk
    · cases hwalk
    next hdir =>
      rw [Bool.not_eq_true', Bool.not_eq_false] at hdir
      split at hwalk
      · exact ih h hwalk
      · split at hwalk
        · exact ih h.above hwalk
        · split at hwalk
          · cases hwalk
          · exact ih (h.append hdir name) hwalk

theorem isReachable_of_place (h : Disk.place files path = .ok place) : IsReachable files place := by
  rw [Disk.place] at h
  split at h
  · cases h
  · split at h
    · cases h
    · refine IsReachable.walk ?_ h
      split
      · exact isReachable_nil
      · exact isReachable_top

/-! ### What is found after the writing -/

/-- The first file at a place, after those at one place have given way to another one. -/
theorem find?_replace (files : Files) (place q : Place) (contents : Bytes) :
    (files.filter (fun f => f.1 ≠ place) ++ [(place, contents)]).find? (fun f => f.1 = q) =
      if q = place then some (place, contents) else files.find? fun f => f.1 = q := by
  rw [List.find?_append, List.find?_filter]
  split
  next hq =>
    have hnone : files.find? (fun f => decide (decide (f.1 ≠ place) = true ∧
        decide (f.1 = q) = true)) = none :=
      List.find?_eq_none.mpr fun f _ => by simp [hq]
    rw [hnone, Option.none_or, List.find?_singleton, if_pos (decide_eq_true hq.symm)]
  next hq =>
    have hsame : (fun f : Place × Bytes => decide (decide (f.1 ≠ place) = true ∧
        decide (f.1 = q) = true)) = fun f => decide (f.1 = q) := by
      funext f
      by_cases hf : f.1 = q <;> simp [hf, hq]
    rw [hsame, List.find?_singleton, if_neg (by simpa using Ne.symm hq), Option.or_none]

/-- Contents are found where they were written, and else what was there; the null device stays
empty. -/
theorem contents?_write (h : Disk.place files path = .ok place) (q : Place) :
    contents? (write files path contents) q =
      if q = nullDevice then some []
      else if q = place then some contents
      else contents? files q := by
  rw [write, h]
  dsimp only
  split
  next hplace =>
    -- What is written to the null device is lost, and it is as empty as before.
    rw [hplace, contents?]
    split <;> rfl
  next hplace =>
    rw [contents?, contents?, find?_replace]
    split
    · rfl
    · split <;> rfl

/-- Writing neither makes directories nor takes them away. -/
theorem isDirectory_write (path : Text) (q : Place) :
    isDirectory (write files path contents) q = isDirectory files q := by
  rw [write]
  split
  · rfl
  next place hplace =>
    split
    · rfl
    · rw [Bool.eq_iff_iff, isDirectory_iff, isDirectory_iff]
      constructor
      · rintro (hq | ⟨f, hf, hq⟩)
        · exact Or.inl hq
        rcases List.mem_append.mp hf with hf | hf
        · exact Or.inr ⟨f, (List.mem_filter.mp hf).1, hq⟩
        · -- The new file is in a directory that was there before.
          cases List.mem_singleton.mp hf
          exact isDirectory_iff.mp (isReachable_of_place hplace q hq.1 hq.2)
      · rintro (hq | ⟨f, hf, hq⟩)
        · exact Or.inl hq
        by_cases hsame : f.1 = place
        · exact Or.inr ⟨_, List.mem_append_right _ (List.mem_singleton_self _), hsame ▸ hq⟩
        · exact Or.inr ⟨f, List.mem_append_left _ (List.mem_filter.mpr ⟨hf, by simpa⟩), hq⟩

theorem walk_congr {files' : Files} (h : ∀ q, isDirectory files' q = isDirectory files q)
    (hwalk : walk files place names = .ok place') : walk files' place names = .ok place' := by
  induction names generalizing place with
  | nil => exact hwalk
  | cons name rest ih =>
    rw [walk] at hwalk ⊢
    rw [h]
    split at hwalk
    · cases hwalk
    next hdir =>
      rw [if_neg hdir]
      split at hwalk
      next hskip => rw [if_pos hskip, ih hwalk]
      next hskip =>
        rw [if_neg hskip]
        split at hwalk
        next hup => rw [if_pos hup, ih hwalk]
        next hup =>
          rw [if_neg hup]
          split at hwalk
          · cases hwalk
          next hlong => rw [if_neg hlong, ih hwalk]

/-- **Every path leads where it led.** -/
theorem place_write (h : Disk.place files other = .ok place) :
    Disk.place (write files path contents) other = .ok place := by
  rw [Disk.place] at h ⊢
  split at h
  · cases h
  next hother =>
    rw [if_neg hother]
    split at h
    · cases h
    next hlong =>
      rw [if_neg hlong]
      exact walk_congr (isDirectory_write path) h

theorem ofFiles_eq_file_iff :
    ofFiles files path = .file data ↔ Path.fault? path = none ∧
      ∃ place, Disk.place files path = .ok place ∧ contents? files place = some data := by
  rw [ofFiles]
  cases Path.fault? path with
  | some cause => exact ⟨nofun, fun h => nomatch h.1⟩
  | none =>
    cases Disk.place files path with
    | error cause => exact ⟨nofun, fun ⟨_, _, h, _⟩ => nomatch h⟩
    | ok place =>
      dsimp only
      cases hcontents : contents? files place with
      | some found => simp [hcontents]
      | none =>
        cases isDirectory files place <;> simp [hcontents]

theorem exists_place_of_writeFault? (h : Command.writeFault? (ofFiles files) path = none) :
    Path.fault? path = none ∧ ∃ place, Disk.place files path = .ok place := by
  rw [Command.writeFault?, ofFiles] at h
  cases hfault : Path.fault? path with
  | some cause => simp [hfault] at h
  | none =>
    cases hplace : Disk.place files path with
    | error cause => simp [hfault, hplace] at h
    | ok place => exact ⟨rfl, place, rfl⟩

/-- **What is written is found**, at any path that can be written to but the null device. -/
theorem ofFiles_write_self (h : Command.writeFault? (ofFiles files) path = none)
    (hdevice : Disk.place files path ≠ .ok nullDevice) :
    ofFiles (write files path contents) path = .file contents := by
  obtain ⟨hfault, place, hplace⟩ := exists_place_of_writeFault? h
  refine ofFiles_eq_file_iff.mpr ⟨hfault, place, place_write hplace, ?_⟩
  have hplace' : place ≠ nullDevice := fun heq => hdevice (by rw [hplace, heq])
  rw [contents?_write hplace, if_neg hplace', if_pos rfl]

/-- **What is not written stays**: any file in another place. -/
theorem ofFiles_write_of_ne (h : ofFiles files other = .file data)
    (hne : Disk.place files other ≠ Disk.place files path) :
    ofFiles (write files path contents) other = .file data := by
  obtain ⟨hfault, place, hplace, hdata⟩ := ofFiles_eq_file_iff.mp h
  refine ofFiles_eq_file_iff.mpr ⟨hfault, place, place_write hplace, ?_⟩
  cases hpath : Disk.place files path with
  | error cause => rwa [write, hpath]
  | ok q =>
    have hq : place ≠ q := fun heq => hne (by rw [hplace, hpath, heq])
    rw [contents?_write hpath, if_neg hq, ← hdata]
    split
    next hdevice => rw [hdevice, contents?, if_pos rfl]
    · rfl

end TypedMemory.Disk
