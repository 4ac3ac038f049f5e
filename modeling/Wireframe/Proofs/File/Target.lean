import Mathlib.Data.List.Nodup
import Wireframe.File.Target
import Wireframe.Proofs.File.Stem
import Wireframe.Proofs.File.Store

/-! Places of targets. The name of a target has no slash, so it is the last name of the target's
path (`last_target`), and different targets are located at different places
(`target_eq_of_locates`). Targets are planned where no two are the same (`targets_eq_ok_iff`). -/

namespace Wireframe

namespace Path

/-- A name below a directory is the last name of the path that it makes. -/
theorem last_join {dir name : Text} (h : '/' ∉ name) : last (join dir name) = name := by
  have hslash : ∀ above : Text, last (above ++ '/' :: name) = name := fun above => by
    rw [last, names, Text.splitBy_append_cons (by decide), ← names, ← names, names_of_notMem h]
    simp
  rw [join]
  split
  · next hdir =>
    rcases hdir with rfl | hdir
    · simp [last, names_of_notMem h]
    · obtain ⟨above, rfl⟩ := List.getLast?_eq_some_iff.1 hdir
      rw [List.append_assoc]
      exact hslash above
  · exact hslash dir

end Path

/-! ### Targets -/

/-- The name of a target. -/
def targetName (format : Format) (input : Text) : Text :=
  targetStem input ++ '.' :: format.extension

theorem slash_notMem_targetName (format : Format) (input : Text) :
    '/' ∉ targetName format input := by
  have hstem : '/' ∉ targetStem input := by
    rw [targetStem]
    cases h : Path.stem? input with
    | none => exact (by decide : '/' ∉ fallbackStem)
    | some stem => exact Path.slash_notMem_stem h
  have hextension : '/' ∉ '.' :: format.extension := by
    cases format <;> decide
  simp only [targetName, List.mem_append, not_or]
  exact ⟨hstem, hextension⟩

variable {dir : Text} {format : Format} {input input' : Text} {s : Store} {p : Place}

theorem last_target : Path.last (target dir format input) = targetName format input :=
  Path.last_join (slash_notMem_targetName format input)

/-- Targets at one place are one target. -/
theorem target_eq_of_locates (h : s.Locates (target dir format input) p)
    (h' : s.Locates (target dir format input') p) :
    target dir format input = target dir format input' := by
  obtain ⟨-, d, -, hd⟩ := h
  obtain ⟨-, e, -, he⟩ := h'
  rw [last_target] at hd he
  have hname : targetName format input = targetName format input' :=
    List.singleton_inj.1 (List.append_inj_right' (hd.symm.trans he) rfl)
  exact congrArg (Path.join dir) hname

theorem targetsAfter_eq_ok_iff {earlier inputs paths : List Text} :
    targetsAfter dir format earlier inputs = .ok paths ↔
      (∀ input ∈ inputs, ∀ first ∈ earlier, target dir format first ≠ target dir format input) ∧
        (inputs.map (target dir format)).Nodup ∧ paths = inputs.map (target dir format) := by
  induction inputs generalizing earlier paths with
  | nil => simp [targetsAfter, eq_comm]
  | cons input inputs ih =>
    simp only [targetsAfter, List.map_cons, List.nodup_cons, List.forall_mem_cons]
    cases h : earlier.find? (target dir format · = target dir format input) with
    | some first =>
      have hfirst : target dir format first = target dir format input := by
        simpa using List.find?_some h
      have hmem : first ∈ earlier := List.mem_of_find?_eq_some h
      constructor
      · intro herror
        contradiction
      · rintro ⟨⟨hne, -⟩, -⟩
        exact absurd hfirst (hne first hmem)
    | none =>
      have hne : ∀ first ∈ earlier, target dir format first ≠ target dir format input := by
        simpa using List.find?_eq_none.1 h
      simp only [map_eq_ok_iff, ih]
      constructor
      · rintro ⟨more, ⟨hearlier, hnodup, rfl⟩, rfl⟩
        refine ⟨⟨hne, fun i hi first hfirst => hearlier i hi first (List.mem_append_left _ hfirst)⟩,
          ⟨fun hmem => ?_, hnodup⟩, rfl⟩
        obtain ⟨i, hi, heq⟩ := List.mem_map.1 hmem
        exact hearlier i hi input (List.mem_append_right _ List.mem_cons_self) heq.symm
      · rintro ⟨⟨-, hearlier⟩, ⟨hnotMem, hnodup⟩, rfl⟩
        refine ⟨_, ⟨fun i hi first hfirst => ?_, hnodup, rfl⟩, rfl⟩
        rcases List.mem_append.1 hfirst with hfirst | hfirst
        · exact hearlier i hi first hfirst
        · rw [List.mem_singleton.1 hfirst]
          exact fun heq => hnotMem (List.mem_map.2 ⟨i, hi, heq.symm⟩)

theorem targets_eq_ok_iff {inputs paths : List Text} :
    targets dir format inputs = .ok paths ↔
      (inputs.map (target dir format)).Nodup ∧ paths = inputs.map (target dir format) := by
  rw [targets, targetsAfter_eq_ok_iff]
  simp

end Wireframe
