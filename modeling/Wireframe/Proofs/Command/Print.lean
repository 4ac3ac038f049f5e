import Mathlib.Data.List.Basic
import Mathlib.Tactic.Choose
import Wireframe.Command.Run
import Wireframe.Proofs.Command.Arguments
import Wireframe.Proofs.File.Rendering

/-! What the command prints. The standard input and a file are rendered alike, so a run on files
prints what runs on the contents of the files would print, one after the other (`run_print`); there
are arguments for such runs whatever the options are (`exists_readJob_input`). Where one of the
files cannot be rendered, nothing is printed but a report on such a file. -/

namespace Wireframe.Command

variable {read : Text → Except Fault ByteArray}

/-! ### Several files -/

theorem renderFiles_of_holdsSource (options : Options) {files : List Text} {tree : Text → Node}
    (h : ∀ path ∈ files, HoldsSource read path (tree path)) :
    renderFiles options read files = .ok (files.map fun path => (tree path).render options) := by
  induction files with
  | nil => rfl
  | cons path paths ih =>
    obtain ⟨hpath, hpaths⟩ := List.forall_mem_cons.1 h
    simp only [renderFiles, renderFile_of_holdsSource options hpath, ih hpaths]
    rfl

/-- The files are rendered all or none. -/
theorem renderFiles_of_not_holdsSource (options : Options) {files : List Text}
    (h : ∃ path ∈ files, ∀ t, ¬ HoldsSource read path t) :
    ∃ e : FileError, renderFiles options read files = .error (.file e) ∧ e.path ∈ files ∧
      ∀ t, ¬ HoldsSource read e.path t := by
  induction files with
  | nil => simp at h
  | cons path paths ih =>
    by_cases hpath : ∃ t, HoldsSource read path t
    · -- the first file is rendered, so one of the others is the one that cannot be
      obtain ⟨t, ht⟩ := hpath
      have hmore : ∃ path ∈ paths, ∀ t, ¬ HoldsSource read path t := by
        obtain ⟨bad, hmem, hbad⟩ := h
        rcases List.mem_cons.1 hmem with rfl | hmem
        · exact absurd ht (hbad t)
        · exact ⟨bad, hmem, hbad⟩
      obtain ⟨e, he, hmem, hbad⟩ := ih hmore
      refine ⟨e, ?_, List.mem_cons_of_mem _ hmem, hbad⟩
      simp only [renderFiles, renderFile_of_holdsSource options ht, he]
      rfl
    · obtain ⟨e, he, rfl⟩ := renderFile_of_not_holdsSource options (not_exists.1 hpath)
      exact ⟨e, by simp only [renderFiles, he], List.mem_cons_self, not_exists.1 hpath⟩

/-! ### Runs that print -/

variable {arguments : List Text} {environment : Option Text} {job : Job} {s : Store}

/-- A run without files prints the rendering of its input. -/
theorem run_input {input : ByteArray} {t : Node} (hj : readJob arguments environment = .ok job)
    (hf : job.files = []) (ht : Source.Encoded input t) :
    run arguments environment input s = (⟨0, t.render job.options ++ ['\n'], []⟩, s) := by
  obtain ⟨source, hdecode, hparse⟩ := ht
  have hsource : (Except.ok input : Except Fault ByteArray).bind Text.decode = .ok source := hdecode
  have hrender : renderInput job.options (.ok input) = .ok (t.render job.options) := by
    simp only [renderInput, hsource, Source.render_of_parse job.options hparse]
    rfl
  have hplan : plan job (.ok input) s.read = .ok (.print [t.render job.options]) := by
    simp only [plan, hf, hrender]
    rfl
  simp only [run, hj, perform, hplan, act]
  simp [printed]

theorem plan_print {input : Except Fault ByteArray} (hd : job.directory = none)
    (hf : job.files ≠ []) :
    plan job input read = (renderFiles job.options read job.files).map .print := by
  obtain ⟨options, _, verbosity, files⟩ := job
  obtain ⟨path, paths, rfl⟩ := List.exists_cons_of_ne_nil hf
  subst hd
  rfl

theorem run_print_of_holdsSource {input : ByteArray} {tree : Text → Node}
    (hj : readJob arguments environment = .ok job) (hd : job.directory = none)
    (hf : job.files ≠ []) (h : ∀ path ∈ job.files, HoldsSource s.read path (tree path)) :
    run arguments environment input s =
      (⟨0, job.files.flatMap fun path => (tree path).render job.options ++ ['\n'], []⟩, s) := by
  have hplan : plan job (.ok input) s.read =
      .ok (.print (job.files.map fun path => (tree path).render job.options)) := by
    rw [plan_print hd hf, renderFiles_of_holdsSource job.options h]
    rfl
  simp only [run, hj, perform, hplan, act]
  rw [printed, List.flatMap_map]

theorem run_print_of_not_holdsSource (hj : readJob arguments environment = .ok job)
    (hd : job.directory = none) (hf : job.files ≠ [])
    (h : ∃ path ∈ job.files, ∀ t, ¬ HoldsSource s.read path t) (input : ByteArray) :
    ∃ e : FileError, run arguments environment input s = ((Failure.file e).outcome, s) ∧
      e.path ∈ job.files ∧ ∀ t, ¬ HoldsSource s.read e.path t := by
  obtain ⟨e, he, hmem, hbad⟩ := renderFiles_of_not_holdsSource job.options h
  have hplan : plan job (.ok input) s.read = .error (.file e) := by
    rw [plan_print hd hf, he]
    rfl
  exact ⟨e, by simp only [run, hj, perform, hplan], hmem, hbad⟩

/-- The report on a file starts with its path. -/
theorem report_file (e : FileError) :
    ∃ rest, (Failure.file e).report = "Error: ".toList ++ (e.path ++ rest) := by
  have hassoc : ∀ a b c d f g : Text,
      a ++ (b ++ c ++ d) ++ f ++ g = a ++ (b ++ (c ++ d ++ f ++ g)) := by simp
  exact ⟨_, hassoc ..⟩

/-- A run on files prints what runs without files print that are given the contents of the files,
in order, and leaves the store as it is. If a file holds no source, it prints nothing but a report
that starts with the path of such a file. -/
theorem run_print {arguments₀ : List Text} {environment₀ : Option Text} {job₀ : Job}
    (hj : readJob arguments environment = .ok job) (hd : job.directory = none)
    (hf : job.files ≠ []) (hj₀ : readJob arguments₀ environment₀ = .ok job₀)
    (hf₀ : job₀.files = []) (ho : job₀.options = job.options) (input : ByteArray)
    (s s₀ : Store) :
    (∀ content : Text → ByteArray,
      (∀ path ∈ job.files,
        s.read path = .ok (content path) ∧ ∃ t, Source.Encoded (content path) t) →
      run arguments environment input s =
        (⟨0, job.files.flatMap fun path =>
          (run arguments₀ environment₀ (content path) s₀).1.stdout, []⟩, s)) ∧
    ((∃ path ∈ job.files, ∀ t, ¬ HoldsSource s.read path t) →
      ∃ path ∈ job.files, (∀ t, ¬ HoldsSource s.read path t) ∧
        ∃ rest, run arguments environment input s =
          (⟨1, [], "Error: ".toList ++ (path ++ rest)⟩, s)) := by
  constructor
  · intro content hcontent
    have htree : ∀ path ∈ job.files, ∃ t, Source.Encoded (content path) t :=
      fun path hpath => (hcontent path hpath).2
    have : Nonempty Node := ⟨.root []⟩
    choose! tree htree using htree
    have hstdout : ∀ path ∈ job.files, (run arguments₀ environment₀ (content path) s₀).1.stdout =
        (tree path).render job.options ++ ['\n'] := fun path hpath => by
      rw [run_input hj₀ hf₀ (htree path hpath), ho]
    rw [List.flatMap_congr hstdout]
    exact run_print_of_holdsSource hj hd hf fun path hpath =>
      ⟨content path, (hcontent path hpath).1, htree path hpath⟩
  · intro hbad
    obtain ⟨e, hrun, hmem, he⟩ := run_print_of_not_holdsSource hj hd hf hbad input
    obtain ⟨rest, hreport⟩ := report_file e
    refine ⟨e.path, hmem, he, rest, ?_⟩
    rw [hrun, Failure.outcome, hreport]

/-! ### A sample -/

/-- The contents of two sources, and of a file that is no source. -/
def sampleSource (path : Text) : Text :=
  if path = "a.txt".toList then "=main\n  ^email".toList
  else if path = ['b'] then "# Hi | !Go".toList
  else "=x\n]".toList

def sampleStore : Store :=
  ⟨["a.txt".toList, ['b'], ['c']].map fun path =>
    ([path], .file (Text.encode (sampleSource path))), []⟩

theorem not_holdsSource_sampleStore (t : Node) : ¬ HoldsSource sampleStore.read ['c'] t := by
  rintro ⟨bytes, hread, source, hdecode, hparse⟩
  obtain rfl : Text.encode (sampleSource ['c']) = bytes := Except.ok.inj hread
  rw [Text.decode_encode] at hdecode
  obtain rfl := Except.ok.inj hdecode
  contradiction

theorem run_print_sampleStore :
    run ["a.txt".toList, ['b'], "a.txt".toList] none .empty sampleStore =
      (⟨0, ["a.txt".toList, ['b'], "a.txt".toList].flatMap fun path =>
        (run [] none (Text.encode (sampleSource path)) sampleStore).1.stdout, []⟩, sampleStore) ∧
    ∃ path ∈ [['b'], ['c']], (∀ t, ¬ HoldsSource sampleStore.read path t) ∧
      ∃ rest, run [['b'], ['c']] none .empty sampleStore =
        (⟨1, [], "Error: ".toList ++ (path ++ rest)⟩, sampleStore) := by
  have hinput : readJob [] none = .ok ⟨.of .ascii 120, none, 0, []⟩ := rfl
  have hprints : readJob ["a.txt".toList, ['b'], "a.txt".toList] none =
      .ok ⟨.of .ascii 120, none, 0, ["a.txt".toList, ['b'], "a.txt".toList]⟩ := rfl
  have hrefused : readJob [['b'], ['c']] none = .ok ⟨.of .ascii 120, none, 0, [['b'], ['c']]⟩ := rfl
  have hgood := run_print hprints rfl (List.cons_ne_nil _ _) hinput rfl rfl .empty sampleStore
    sampleStore
  have hbad := run_print hrefused rfl (List.cons_ne_nil _ _) hinput rfl rfl .empty sampleStore
    sampleStore
  refine ⟨hgood.1 (fun path => Text.encode (sampleSource path)) fun path hpath => ?_,
    hbad.2 ⟨['c'], List.mem_cons_of_mem _ List.mem_cons_self, not_holdsSource_sampleStore⟩⟩
  have hmem : path ∈ ["a.txt".toList, ['b'], "a.txt".toList] := hpath
  simp only [List.mem_cons, List.not_mem_nil, or_false] at hmem
  rcases hmem with rfl | rfl | rfl
  · exact ⟨rfl, _, Source.encoded_encode rfl⟩
  · exact ⟨rfl, _, Source.encoded_encode rfl⟩
  · exact ⟨rfl, _, Source.encoded_encode rfl⟩

end Wireframe.Command
