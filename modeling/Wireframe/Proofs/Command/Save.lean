import Wireframe.Proofs.Command.Print
import Wireframe.Proofs.File.Target

/-! What the command saves. Nothing is created or written before all files are read, rendered and
given targets of their own, so a run that fails up to then leaves the store as it was; a run that
succeeds leaves at each target the rendering of what its file held at the start, and all other files
as they were (`run_save`). The renderings are written one after the other, and each is written to a
place of its own (`read_saveAll`). -/

namespace Wireframe.Command

variable {s s' : Store} {p : Place} {path rendering : Text} {ws : List (Text × Text)}

/-! ### Writing renderings -/

/-- The first rendering is put where its path locates it, and then the others are written. -/
theorem saveAll_cons_eq_iff :
    saveAll s ((path, rendering) :: ws) = (none, s') ↔
      ∃ p, s.Locates path p ∧ s.find? p ≠ some .directory ∧
        saveAll (s.put p (.file (fileBytes rendering))) ws = (none, s') := by
  have hwrite : saveAll s ((path, rendering) :: ws) = (none, s') ↔
      ∃ t, s.write path (fileBytes rendering) = .ok t ∧ saveAll t ws = (none, s') := by
    rw [saveAll]
    cases s.write path (fileBytes rendering) <;> simp
  rw [hwrite]
  simp only [Store.write_eq_ok_iff]
  constructor
  · rintro ⟨t, ⟨p, hp, hfree, rfl⟩, h⟩
    exact ⟨p, hp, hfree, h⟩
  · rintro ⟨p, hp, hfree, h⟩
    exact ⟨_, ⟨p, hp, hfree, rfl⟩, h⟩

/-- All renderings are written if each of them can be. -/
theorem exists_saveAll_iff : (∃ s', saveAll s ws = (none, s')) ↔ ∀ w ∈ ws, s.Writable w.1 := by
  induction ws generalizing s with
  | nil => simp [saveAll]
  | cons w ws ih =>
    obtain ⟨path, rendering⟩ := w
    simp only [saveAll_cons_eq_iff, List.forall_mem_cons]
    constructor
    · rintro ⟨s', p, hp, hfree, h⟩
      refine ⟨Store.writable_iff.2 ⟨p, hp, hfree⟩, fun w hw => ?_⟩
      exact (Store.writable_put_file_iff hfree).1 (ih.1 ⟨s', h⟩ w hw)
    · rintro ⟨hpath, hws⟩
      obtain ⟨p, hp, hfree⟩ := Store.writable_iff.1 hpath
      obtain ⟨s', h⟩ := ih.2 fun w hw => (Store.writable_put_file_iff hfree).2 (hws w hw)
      exact ⟨s', p, hp, hfree, h⟩

theorem locates_saveAll_iff (h : saveAll s ws = (none, s')) :
    s'.Locates path p ↔ s.Locates path p := by
  induction ws generalizing s with
  | nil =>
    obtain rfl := (Prod.mk.inj h).2
    rfl
  | cons w ws ih =>
    obtain ⟨q, -, hfree, h⟩ := saveAll_cons_eq_iff.1 h
    rw [ih h, Store.locates_put_file_iff hfree]

/-- Nothing is changed but at the places of the renderings. -/
theorem find?_saveAll (h : saveAll s ws = (none, s')) (hp : ∀ w ∈ ws, ¬ s.Locates w.1 p) :
    s'.find? p = s.find? p := by
  induction ws generalizing s with
  | nil =>
    obtain rfl := (Prod.mk.inj h).2
    rfl
  | cons w ws ih =>
    obtain ⟨q, hq, hfree, h⟩ := saveAll_cons_eq_iff.1 h
    obtain ⟨hw, hws⟩ := List.forall_mem_cons.1 hp
    have hne : p ≠ q := by
      rintro rfl
      exact hw hq
    rw [ih h fun w hw => by rw [Store.locates_put_file_iff hfree]; exact hws w hw,
      Store.find?_put_file hfree, if_neg hne]

/-- Renderings that are written to places of their own can all be read back. -/
theorem read_saveAll (h : saveAll s ws = (none, s'))
    (hapart : ws.Pairwise fun v w => ∀ p, s.Locates v.1 p → ¬ s.Locates w.1 p) :
    ∀ w ∈ ws, s'.read w.1 = .ok (fileBytes w.2) := by
  induction ws generalizing s with
  | nil => simp
  | cons v ws ih =>
    obtain ⟨q, hq, hfree, h⟩ := saveAll_cons_eq_iff.1 h
    obtain ⟨hv, hws⟩ := List.pairwise_cons.1 hapart
    have hlocates : ∀ {path p}, (s.put q (.file (fileBytes v.2))).Locates path p ↔
        s.Locates path p := Store.locates_put_file_iff hfree
    rw [List.forall_mem_cons]
    constructor
    · -- what is written first is not changed by what is written after it
      refine Store.read_of_locates ((locates_saveAll_iff h).2 (hlocates.2 hq)) ?_
      rw [find?_saveAll h fun w hw => by rw [hlocates]; exact hv w hw q hq,
        Store.find?_put_file hfree, if_pos rfl]
    · exact ih h (by simpa only [hlocates] using hws)

/-! ### Runs that save -/

variable {arguments : List Text} {environment : Option Text} {job : Job} {directory : Text}
  {input : ByteArray} {read : Text → Except Fault ByteArray} {tree : Text → Node}

/-- Whoever asks for a directory names files. -/
theorem files_ne_nil_of_readJob (hj : readJob arguments environment = .ok job)
    (hd : job.directory = some directory) : job.files ≠ [] := by
  obtain ⟨g, -, hg⟩ := bind_eq_ok_iff.1 hj
  obtain ⟨width, -, hjob⟩ := bind_eq_ok_iff.1 hg
  split_ifs at hjob with hnone
  obtain rfl := Except.ok.inj hjob
  have hsome : g.directory.isSome = true := Option.isSome_iff_exists.2 ⟨directory, hd⟩
  exact fun hf => hnone ⟨hsome, hf⟩

theorem plan_save {input : Except Fault ByteArray} (hd : job.directory = some directory)
    (hf : job.files ≠ []) :
    plan job input read =
      match targets directory job.options.format job.files with
      | .error c => .error (.collision c)
      | .ok paths => (renderFiles job.options read job.files).map fun renderings =>
        .save directory (paths.zip renderings) := by
  obtain ⟨options, _, verbosity, files⟩ := job
  obtain ⟨path, paths, rfl⟩ := List.exists_cons_of_ne_nil hf
  subst hd
  rfl

/-- The target of a file, and the rendering that is written to it. -/
def saving (job : Job) (directory : Text) (tree : Text → Node) (path : Text) : Text × Text :=
  (target directory job.options.format path, (tree path).render job.options)

theorem exists_saveAll_saving_iff : (∃ s', saveAll s (job.files.map (saving job directory tree)) =
    (none, s')) ↔ ∀ path ∈ job.files, s.Writable (target directory job.options.format path) := by
  rw [exists_saveAll_iff, List.forall_mem_map]
  rfl

/-- A job is refused before anything is created if two files have one target or a file is no
source. -/
theorem plan_save_of_refused (hd : job.directory = some directory) (hf : job.files ≠ [])
    (h : ¬ (job.files.map (target directory job.options.format)).Nodup ∨
      ∃ path ∈ job.files, ∀ t, ¬ HoldsSource read path t) (input : ByteArray) :
    ∃ e, plan job (.ok input) read = .error e := by
  rw [plan_save hd hf]
  cases htargets : targets directory job.options.format job.files with
  | error c => exact ⟨_, rfl⟩
  | ok paths =>
    have hbad : ∃ path ∈ job.files, ∀ t, ¬ HoldsSource read path t :=
      h.resolve_left fun hnodup => hnodup (targets_eq_ok_iff.1 htargets).1
    obtain ⟨e, he, -⟩ := renderFiles_of_not_holdsSource job.options hbad
    exact ⟨.file e, by simp only [he, Except.map]⟩

theorem plan_save_of_holdsSource (hd : job.directory = some directory) (hf : job.files ≠ [])
    (hnodup : (job.files.map (target directory job.options.format)).Nodup)
    (htree : ∀ path ∈ job.files, HoldsSource read path (tree path)) :
    plan job (.ok input) read =
      .ok (.save directory (job.files.map (saving job directory tree))) := by
  rw [plan_save hd hf, targets_eq_ok_iff.2 ⟨hnodup, rfl⟩,
    renderFiles_of_holdsSource job.options htree]
  simp only [Except.map, List.zip_map']
  rfl

/-- An action that saves succeeds if the directory can be created and all renderings written. -/
theorem act_save_of_saveAll {s₁ s₂ : Store} (hcreate : s.createAll directory = .ok s₁)
    (hsave : saveAll s₁ ws = (none, s₂)) :
    act s (.save directory ws) = (⟨0, [], []⟩, s₂) := by
  simp only [act, hcreate, hsave]

theorem exists_saveAll_of_act (s : Store) (directory : Text) (ws : List (Text × Text))
    (hcode : (act s (.save directory ws)).1.code = 0) :
    ∃ s₁, s.createAll directory = .ok s₁ ∧ ∃ s₂, saveAll s₁ ws = (none, s₂) := by
  cases hcreate : s.createAll directory with
  | error fault =>
    simp only [act, hcreate] at hcode
    contradiction
  | ok s₁ =>
    obtain ⟨failure, s₂, hsave⟩ : ∃ failure s₂, saveAll s₁ ws = (failure, s₂) := ⟨_, _, rfl⟩
    simp only [act, hcreate, hsave] at hcode
    cases failure with
    | some e => contradiction
    | none => exact ⟨s₁, rfl, s₂, hsave⟩

/-- What a run that saves leaves behind, given the trees of its files before: at each target the
rendering of its file and a line feed, and at all other places the files that were there before. -/
structure Saved (job : Job) (directory : Text) (tree : Text → Node) (before after : Store) :
    Prop where
  read_target : ∀ path ∈ job.files, after.read (target directory job.options.format path) =
    .ok (Text.encode ((tree path).render job.options ++ ['\n']))
  find?_other : ∀ p,
    (∀ path ∈ job.files, ¬ after.Locates (target directory job.options.format path) p) →
    ∀ bytes, after.find? p = some (.file bytes) ↔ before.find? p = some (.file bytes)

theorem saved_of_saveAll {s₁ s₂ : Store} (hcreate : s.createAll directory = .ok s₁)
    (hsave : saveAll s₁ (job.files.map (saving job directory tree)) = (none, s₂))
    (hnodup : (job.files.map (target directory job.options.format)).Nodup) :
    Saved job directory tree s s₂ where
  read_target path hpath := by
    -- different targets have different places, so no rendering overwrites another
    refine read_saveAll hsave ?_ (saving job directory tree path) (List.mem_map_of_mem hpath)
    rw [List.pairwise_map]
    exact (List.pairwise_map.1 hnodup).imp fun hne p hv hw => hne (target_eq_of_locates hv hw)
  find?_other p hp bytes := by
    have hkept : s₂.find? p = s₁.find? p := find?_saveAll hsave fun w hw => by
      obtain ⟨path, hpath, rfl⟩ := List.mem_map.1 hw
      rw [← locates_saveAll_iff hsave]
      exact hp path hpath
    rw [hkept]
    exact Store.sameFiles_of_createAll hcreate p bytes

/-- A run that saves is all or nothing up to the writing. If two files have one target, or one of
them holds no source, it fails, prints nothing and leaves the store as it is. Otherwise it succeeds
if the directory can be created and each target written, and then it prints nothing, and has saved
the renderings of what the files held at the start. -/
theorem run_save (hj : readJob arguments environment = .ok job)
    (hd : job.directory = some directory) (input : ByteArray) (s : Store) :
    (¬ (job.files.map (target directory job.options.format)).Nodup ∨
        (∃ path ∈ job.files, ∀ t, ¬ HoldsSource s.read path t) →
      ∃ report, run arguments environment input s = (⟨1, [], report⟩, s)) ∧
    ((job.files.map (target directory job.options.format)).Nodup →
      ∀ tree : Text → Node, (∀ path ∈ job.files, HoldsSource s.read path (tree path)) →
        ((run arguments environment input s).1.code = 0 ↔
          ∃ s₁, s.createAll directory = .ok s₁ ∧
            ∀ path ∈ job.files, s₁.Writable (target directory job.options.format path)) ∧
        ((run arguments environment input s).1.code = 0 →
          (run arguments environment input s).1 = ⟨0, [], []⟩ ∧
            Saved job directory tree s (run arguments environment input s).2)) := by
  have hf := files_ne_nil_of_readJob hj hd
  constructor
  · intro hrefused
    obtain ⟨e, hplan⟩ := plan_save_of_refused hd hf hrefused input
    exact ⟨e.report, by simp only [run, hj, perform, hplan, Failure.outcome]⟩
  · intro hnodup tree htree
    have hrun : run arguments environment input s =
        act s (.save directory (job.files.map (saving job directory tree))) := by
      simp only [run, hj, perform, plan_save_of_holdsSource hd hf hnodup htree]
    have hsucceeds := exists_saveAll_of_act s directory (job.files.map (saving job directory tree))
    rw [hrun]
    refine ⟨⟨fun hcode => ?_, ?_⟩, fun hcode => ?_⟩
    · obtain ⟨s₁, hcreate, hsave⟩ := hsucceeds hcode
      exact ⟨s₁, hcreate, exists_saveAll_saving_iff.1 hsave⟩
    · rintro ⟨s₁, hcreate, hwritable⟩
      obtain ⟨s₂, hsave⟩ := exists_saveAll_saving_iff.2 hwritable
      rw [act_save_of_saveAll hcreate hsave]
    · obtain ⟨s₁, hcreate, s₂, hsave⟩ := hsucceeds hcode
      rw [act_save_of_saveAll hcreate hsave]
      exact ⟨rfl, saved_of_saveAll hcreate hsave hnodup⟩

/-- The trees of the sources in the sample store. -/
def sampleTree (path : Text) : Node :=
  if path = "a.txt".toList then .root [.sect "main".toList none [.row "^email".toList]]
  else .root [.row "# Hi | !Go".toList]

/-- Two files are saved to the directory that they are in, and one of them is overwritten. A file
that is no source and a target that two files share are refused. -/
theorem run_save_sampleStore :
    Saved ⟨.of .ascii 120, some ['.'], 0, ["a.txt".toList, ['b']]⟩ ['.'] sampleTree sampleStore
      (run ["--out-dir".toList, ['.'], "a.txt".toList, ['b']] none .empty sampleStore).2 ∧
    (∃ report, run ["--out-dir".toList, ['o'], ['b'], ['c']] none .empty sampleStore =
      (⟨1, [], report⟩, sampleStore)) ∧
    ∃ report, run ["--out-dir".toList, ['o'], ['b'], ['b']] none .empty sampleStore =
      (⟨1, [], report⟩, sampleStore) := by
  have hsaves : readJob ["--out-dir".toList, ['.'], "a.txt".toList, ['b']] none =
      .ok ⟨.of .ascii 120, some ['.'], 0, ["a.txt".toList, ['b']]⟩ := rfl
  have hinvalid : readJob ["--out-dir".toList, ['o'], ['b'], ['c']] none =
      .ok ⟨.of .ascii 120, some ['o'], 0, [['b'], ['c']]⟩ := rfl
  have hshared : readJob ["--out-dir".toList, ['o'], ['b'], ['b']] none =
      .ok ⟨.of .ascii 120, some ['o'], 0, [['b'], ['b']]⟩ := rfl
  have hsources : ∀ path ∈ ["a.txt".toList, ['b']],
      HoldsSource sampleStore.read path (sampleTree path) := by
    simp only [List.forall_mem_cons, List.not_mem_nil, false_implies, implies_true, and_true]
    exact ⟨⟨_, rfl, Source.encoded_encode rfl⟩, _, rfl, Source.encoded_encode rfl⟩
  have hwritable : ∀ path ∈ ["a.txt".toList, ['b']],
      sampleStore.Writable (target ['.'] .ascii path) := by
    simp only [List.forall_mem_cons, List.not_mem_nil, false_implies, implies_true, and_true]
    exact ⟨fun bytes => ⟨_, rfl⟩, fun bytes => ⟨_, rfl⟩⟩
  obtain ⟨hcode, hsaved⟩ :=
    (run_save hsaves rfl .empty sampleStore).2 (by decide) sampleTree hsources
  exact ⟨(hsaved (hcode.2 ⟨sampleStore, rfl, hwritable⟩)).2,
    (run_save hinvalid rfl .empty sampleStore).1
      (.inr ⟨['c'], by decide, not_holdsSource_sampleStore⟩),
    (run_save hshared rfl .empty sampleStore).1 (.inl (by decide))⟩

end Wireframe.Command
