import Wireframe.Proofs.File.Target

/-! Planning of targets. The inputs that are passed so far have stems that are pairwise
different, so the first input whose stem was there before meets exactly one earlier input
of that stem (`targetsAfter_eq_error_iff`). Hence targets are planned exactly where no two
inputs have one stem, and what is reported otherwise is the first clash
(`plansTargets`). The stem is that of the input's last name, whatever its directories. -/

namespace Wireframe

variable {dir : Text} {format : Format}

/-- The inputs up to `second` have different stems but for `second`, which has the stem of
`first`. -/
def FirstClash (inputs : List Text) (first second : Text) : Prop :=
  ∃ before between after, inputs = before ++ first :: (between ++ second :: after) ∧
    targetStem first = targetStem second ∧
      ((before ++ first :: between).map targetStem).Nodup

theorem FirstClash.targetStem_eq {inputs : List Text} {first second : Text}
    (h : FirstClash inputs first second) : targetStem first = targetStem second := by
  obtain ⟨-, -, -, -, hstem, -⟩ := h
  exact hstem

theorem nodup_map_target_iff {inputs : List Text} :
    (inputs.map (target dir format)).Nodup ↔ (inputs.map targetStem).Nodup := by
  simp only [List.Nodup, List.pairwise_map, ne_eq, target_eq_iff]

/-- Two inputs of one stem among inputs of different stems are one input. -/
theorem eq_of_targetStem_eq {inputs : List Text} (h : (inputs.map targetStem).Nodup)
    {input input' : Text} (hi : input ∈ inputs) (hi' : input' ∈ inputs)
    (heq : targetStem input = targetStem input') : input = input' :=
  List.inj_on_of_nodup_map h hi hi' heq

/-- Of the inputs after earlier ones, the first whose stem was there before is `c.second`, and it was
that of `c.first`. -/
def ClashAfter (dir : Text) (format : Format) (earlier inputs : List Text) (c : Collision) : Prop :=
  ∃ passed after, inputs = passed ++ c.second :: after ∧
    ((earlier ++ passed).map targetStem).Nodup ∧ c.first ∈ earlier ++ passed ∧
      targetStem c.first = targetStem c.second ∧ c.target = target dir format c.second

/-- An input whose stem was there before is not passed. -/
theorem clashAfter_cons_of_mem {earlier inputs : List Text} {first input : Text} {c : Collision}
    (h : (earlier.map targetStem).Nodup) (hmem : first ∈ earlier)
    (hstem : targetStem first = targetStem input) :
    ClashAfter dir format earlier (input :: inputs) c ↔
      c = ⟨first, input, target dir format input⟩ := by
  constructor
  · rintro ⟨passed, after, hinputs, hnodup, hfirst, heq, htarget⟩
    cases passed with
    | nil =>
      obtain ⟨rfl, rfl⟩ := List.cons.inj hinputs
      rw [List.append_nil] at hfirst
      have hsame : first = c.first := eq_of_targetStem_eq h hmem hfirst (hstem.trans heq.symm)
      rw [hsame, ← htarget]
    | cons head passed =>
      obtain ⟨rfl, -⟩ := List.cons.inj hinputs
      rw [List.map_append, List.nodup_append'] at hnodup
      exact absurd (List.mem_map_of_mem hmem) (fun hm => hnodup.2.2 hm (by simp [hstem]))
  · rintro rfl
    exact ⟨[], inputs, rfl, by simpa using h, by simpa using hmem, hstem, rfl⟩

/-- An input of a new stem is passed. -/
theorem clashAfter_cons_of_ne {earlier inputs : List Text} {input : Text} {c : Collision}
    (hne : ∀ first ∈ earlier, targetStem first ≠ targetStem input) :
    ClashAfter dir format earlier (input :: inputs) c ↔
      ClashAfter dir format (earlier ++ [input]) inputs c := by
  constructor
  · rintro ⟨passed, after, hinputs, hnodup, hfirst, heq, htarget⟩
    cases passed with
    | nil =>
      obtain ⟨rfl, -⟩ := List.cons.inj hinputs
      rw [List.append_nil] at hfirst
      exact absurd heq (hne _ hfirst)
    | cons head passed =>
      obtain ⟨rfl, rfl⟩ := List.cons.inj hinputs
      rw [List.append_cons] at hnodup hfirst
      exact ⟨passed, after, rfl, hnodup, hfirst, heq, htarget⟩
  · rintro ⟨passed, after, rfl, hnodup, hfirst, heq, htarget⟩
    rw [List.append_assoc] at hnodup hfirst
    exact ⟨input :: passed, after, rfl, hnodup, hfirst, heq, htarget⟩

theorem nodup_map_append_singleton {earlier : List Text} {input : Text}
    (h : (earlier.map targetStem).Nodup)
    (hne : ∀ first ∈ earlier, targetStem first ≠ targetStem input) :
    ((earlier ++ [input]).map targetStem).Nodup := by
  rw [List.map_append, List.nodup_append']
  refine ⟨h, List.nodup_singleton _, ?_⟩
  rintro stem hstem hinput
  obtain ⟨first, hfirst, rfl⟩ := List.mem_map.1 hstem
  exact hne first hfirst (by simpa using hinput)

/-- After inputs of different stems, what is reported is the first input whose stem was there
before. -/
theorem targetsAfter_eq_error_iff {earlier inputs : List Text} {c : Collision}
    (h : (earlier.map targetStem).Nodup) :
    targetsAfter dir format earlier inputs = .error c ↔
      ClashAfter dir format earlier inputs c := by
  induction inputs generalizing earlier with
  | nil => simp [targetsAfter, ClashAfter]
  | cons input inputs ih =>
    simp only [targetsAfter]
    cases hfind : earlier.find? (target dir format · = target dir format input) with
    | some first =>
      have hstem : targetStem first = targetStem input :=
        target_eq_iff.1 (by simpa using List.find?_some hfind)
      rw [clashAfter_cons_of_mem h (List.mem_of_find?_eq_some hfind) hstem, Except.error.injEq,
        eq_comm]
    | none =>
      have hne : ∀ first ∈ earlier, targetStem first ≠ targetStem input := by
        intro first hfirst heq
        have := List.find?_eq_none.1 hfind first hfirst
        simp [target_eq_iff, heq] at this
      rw [map_eq_error_iff, ih (nodup_map_append_singleton h hne), clashAfter_cons_of_ne hne]

theorem targets_eq_error_iff {inputs : List Text} {c : Collision} :
    targets dir format inputs = .error c ↔
      FirstClash inputs c.first c.second ∧ c.target = target dir format c.second := by
  rw [targets, targetsAfter_eq_error_iff (by simp)]
  simp only [ClashAfter, List.nil_append]
  constructor
  · rintro ⟨passed, after, rfl, hnodup, hfirst, heq, htarget⟩
    obtain ⟨before, between, rfl⟩ := List.append_of_mem hfirst
    exact ⟨⟨before, between, after, by simp, heq, hnodup⟩, htarget⟩
  · rintro ⟨⟨before, between, after, rfl, heq, hnodup⟩, htarget⟩
    exact ⟨before ++ c.first :: between, after, by simp, hnodup, by simp, heq, htarget⟩

/-- How the targets of the inputs are planned. -/
structure PlansTargets (dir : Text) (format : Format) (inputs : List Text) : Prop where
  /-- Inputs of different stems have their targets, in order. -/
  ok_iff : ∀ paths, targets dir format inputs = .ok paths ↔
    (inputs.map targetStem).Nodup ∧ paths = inputs.map (target dir format)
  nodup : ∀ paths, targets dir format inputs = .ok paths → paths.Nodup
  /-- Other inputs are refused. -/
  exists_error : ¬ (inputs.map targetStem).Nodup → ∃ c, targets dir format inputs = .error c
  /-- What is reported is the first clash, with the target that the two inputs share. -/
  error_iff : ∀ c, targets dir format inputs = .error c ↔
    FirstClash inputs c.first c.second ∧ c.target = target dir format c.first ∧
      c.target = target dir format c.second
  /-- Targets are shared with stems, and nothing else of the inputs matters. -/
  shared_iff : ∀ input input', target dir format input = target dir format input' ↔
    targetStem input = targetStem input'
  /-- A target is named after the stem of its input, and a fixed name stands for a missing stem. -/
  target_eq : ∀ input, target dir format input =
    Path.join dir (targetStem input ++ '.' :: format.extension)
  targetStem_eq : ∀ input, targetStem input = (Path.stem? input).getD "wiretext".toList
  stem_iff : ∀ input stem, Path.stem? input = some stem ↔ Path.FileStem input stem

theorem plansTargets (dir : Text) (format : Format) (inputs : List Text) :
    PlansTargets dir format inputs := by
  have hok : ∀ paths, targets dir format inputs = .ok paths ↔
      (inputs.map targetStem).Nodup ∧ paths = inputs.map (target dir format) := fun paths => by
    rw [targets_eq_ok_iff, nodup_map_target_iff]
  refine ⟨hok, fun paths h => ?_, fun h => ?_, fun c => ?_, fun _ _ => target_eq_iff, fun _ => rfl,
    fun _ => rfl, fun _ _ => Path.stem?_eq_some_iff⟩
  · obtain ⟨hnodup, rfl⟩ := (hok paths).1 h
    exact nodup_map_target_iff.2 hnodup
  · cases hplan : targets dir format inputs with
    | ok paths => exact absurd ((hok paths).1 hplan).1 h
    | error c => exact ⟨c, rfl⟩
  · rw [targets_eq_error_iff]
    constructor
    · rintro ⟨hclash, htarget⟩
      exact ⟨hclash, htarget.trans (target_eq_iff.2 hclash.targetStem_eq.symm), htarget⟩
    · rintro ⟨hclash, -, htarget⟩
      exact ⟨hclash, htarget⟩

/-- Neither directories nor extensions keep inputs apart, and an input without a stem meets one that
is called like its target. -/
theorem plansTargets_samples :
    targets "out".toList .html ["a/form.wt".toList, "b/list.v2.txt".toList, "..".toList] =
        .ok ["out/form.html".toList, "out/list.v2.html".toList, "out/wiretext.html".toList] ∧
      targets "out/".toList .ascii ["a/form.wt".toList, "list.wt".toList, "b/form/.".toList] =
        .error ⟨"a/form.wt".toList, "b/form/.".toList, "out/form.txt".toList⟩ ∧
      targets [] .json [[], ".wt".toList, "a/wiretext.txt".toList] =
        .error ⟨[], "a/wiretext.txt".toList, "wiretext.ast.json".toList⟩ := by
  refine ⟨((plansTargets _ _ _).ok_iff _).2 ⟨by decide, by decide⟩,
    ((plansTargets _ _ _).error_iff _).2 ⟨?_, by decide, by decide⟩,
    ((plansTargets _ _ _).error_iff _).2 ⟨?_, by decide, by decide⟩⟩
  · exact ⟨[], ["list.wt".toList], [], rfl, by decide, by decide⟩
  · exact ⟨[], [".wt".toList], [], rfl, by decide, by decide⟩

end Wireframe
