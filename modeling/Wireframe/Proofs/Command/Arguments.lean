import Mathlib.Tactic.SplitIfs
import Wireframe.Command.Arguments
import Wireframe.Proofs.Result
import Wireframe.Proofs.Text.Numeral

/-! Arguments and options. No width that is read reaches the limit (`width_lt_of_readJob`), so every
width can be written as an argument again, and whatever options a job has, there are arguments
without files that ask for the same ones (`exists_readJob_input`). -/

namespace Wireframe.Command

variable {g g' : Given} {mode mode' : Mode} {environment : Option Text} {job : Job}

/-! ### Widths -/

theorem lt_of_readWidth? {t : Text} {n : Nat} (h : readWidth? t = some n) : n < widthLimit := by
  obtain ⟨-, hlt⟩ := Option.filter_eq_some_iff.1 h
  exact of_decide_eq_true hlt

theorem readWidth?_ofNat {n : Nat} (h : n < widthLimit) : readWidth? (Text.ofNat n) = some n := by
  have hplus : (Text.ofNat n).head? ≠ some '+' := fun hhead => by
    have := Text.isDigit_of_mem_ofNat _ (List.mem_of_mem_head? hhead)
    contradiction
  have hread : Text.readNat? (Text.ofNat n) = some n :=
    Text.readNat?_eq_some_iff.2
      ⟨Text.ofNat_ne_nil n, Text.isDigit_of_mem_ofNat, Text.value_ofNat n⟩
  rw [readWidth?, Text.dropFirst, if_neg hplus, hread]
  exact Option.filter_eq_some_iff.2 ⟨rfl, decide_eq_true h⟩

/-- The width given, if there is one, is below the limit. -/
def Given.WidthBelow (g : Given) : Prop := ∀ width, g.width = some width → width < widthLimit

theorem once_eq_ok {α : Type} {setting : Setting} {value : Text} {field new v : Option α}
    (h : once setting value field new = .ok v) : v = new := by
  unfold once at h
  split_ifs at h
  exact (Except.ok.inj h).symm

/-- What is read is what was given, however the next argument is to be read. -/
theorem eq_ok_of_map_mode {x : Except Stop Given}
    (h : x.map (fun g => (g, mode)) = .ok (g', mode')) : x = .ok g' := by
  obtain ⟨g, hg, h⟩ := map_eq_ok_iff.1 h
  exact hg.trans (congrArg Except.ok (Prod.mk.inj h).1)

theorem Given.WidthBelow.set {setting : Setting} {value : Text} (hg : g.WidthBelow)
    (h : g.set setting value = .ok g') : g'.WidthBelow := by
  cases setting with
  | width =>
    obtain ⟨v, hv, rfl⟩ := map_eq_ok_iff.1 h
    intro width hwidth
    exact lt_of_readWidth? ((once_eq_ok hv).symm.trans hwidth)
  | _ =>
    obtain ⟨v, -, rfl⟩ := map_eq_ok_iff.1 h
    exact hg

theorem Given.WidthBelow.turn {s : Switch} (hg : g.WidthBelow) (h : g.turn s = .ok g') :
    g'.WidthBelow := by
  cases s with
  | verbose => exact Except.ok.inj h ▸ hg
  | _ => contradiction

theorem Given.WidthBelow.add {path : Text} (hg : g.WidthBelow) (h : g.add path = .ok g') :
    g'.WidthBelow := by
  unfold Given.add at h
  split_ifs at h
  exact Except.ok.inj h ▸ hg

theorem Given.WidthBelow.readLetters {letters : Text} (hg : g.WidthBelow)
    (h : readLetters g letters = .ok (g', mode')) : g'.WidthBelow := by
  induction letters generalizing g with
  | nil =>
    obtain rfl := (Prod.mk.inj (Except.ok.inj h)).1
    exact hg
  | cons c cs ih =>
    unfold Command.readLetters at h
    split at h
    · contradiction
    · obtain ⟨t, ht, h⟩ := bind_eq_ok_iff.1 h
      exact ih (hg.turn ht) h
    · split_ifs at h
      · obtain rfl := (Prod.mk.inj (Except.ok.inj h)).1
        exact hg
      · exact hg.set (eq_ok_of_map_mode h)

theorem Given.WidthBelow.readName {name : Text} (hg : g.WidthBelow)
    (h : readName g name = .ok (g', mode')) : g'.WidthBelow := by
  unfold Command.readName at h
  dsimp only at h
  split at h
  · contradiction
  · split_ifs at h
    exact hg.turn (eq_ok_of_map_mode h)
  · split_ifs at h
    · obtain rfl := (Prod.mk.inj (Except.ok.inj h)).1
      exact hg
    · exact hg.set (eq_ok_of_map_mode h)

/-- One argument keeps the width below the limit. -/
theorem Given.WidthBelow.readArgument {argument : Text} (hg : g.WidthBelow)
    (h : readArgument g mode argument = .ok (g', mode')) : g'.WidthBelow := by
  unfold Command.readArgument at h
  split at h
  · exact hg.add (eq_ok_of_map_mode h)
  · split_ifs at h
    exact hg.set (eq_ok_of_map_mode h)
  · split_ifs at h
    · split at h
      · obtain rfl := (Prod.mk.inj (Except.ok.inj h)).1
        exact hg
      · exact hg.readName h
      · exact hg.readLetters h
    · exact hg.add (eq_ok_of_map_mode h)

theorem Given.WidthBelow.readArguments {arguments : List Text} (hg : g.WidthBelow)
    (h : readArguments g mode arguments = .ok g') : g'.WidthBelow := by
  induction arguments generalizing g mode with
  | nil =>
    unfold Command.readArguments at h
    split at h
    · contradiction
    · exact Except.ok.inj h ▸ hg
  | cons argument arguments ih =>
    obtain ⟨⟨t, mode'⟩, ht, h⟩ := bind_eq_ok_iff.1 h
    exact ih (hg.readArgument ht) h

theorem lt_of_chooseWidth {given : Option Nat} {width : Nat}
    (hgiven : ∀ width, given = some width → width < widthLimit)
    (h : chooseWidth given environment = .ok width) : width < widthLimit := by
  unfold chooseWidth at h
  split at h
  · exact Except.ok.inj h ▸ hgiven _ rfl
  · exact Except.ok.inj h ▸ (by decide : defaultWidth < widthLimit)
  · split at h
    · next hread => exact Except.ok.inj h ▸ lt_of_readWidth? hread
    · contradiction

theorem width_lt_of_readJob {arguments : List Text} (hj : readJob arguments environment = .ok job) :
    job.options.width < widthLimit := by
  obtain ⟨g, hg, hj⟩ := bind_eq_ok_iff.1 hj
  obtain ⟨width, hwidth, hj⟩ := bind_eq_ok_iff.1 hj
  split_ifs at hj
  obtain rfl := Except.ok.inj hj
  have hnothing : Given.nothing.WidthBelow := fun _ h => by contradiction
  exact Nat.max_lt.2 ⟨lt_of_chooseWidth (hnothing.readArguments hg) hwidth, by decide⟩

/-! ### Arguments for options -/

/-- The arguments that ask for these options, and name no files. -/
def inputArguments (options : Options) : List Text :=
  ["--format".toList, options.format.name, "--width".toList, Text.ofNat options.width]

theorem Options.of_width (options : Options) :
    Options.of options.format options.width = options := by
  obtain ⟨format, width, h⟩ := options
  simp [Options.of, h]

theorem isDashed_ofNat (n : Nat) : isDashed (Text.ofNat n) = false := by
  have hdash : (Text.ofNat n).head? ≠ some '-' := fun hhead => by
    have := Text.isDigit_of_mem_ofNat _ (List.mem_of_mem_head? hhead)
    contradiction
  simp [isDashed, hdash]

theorem readJob_inputArguments {options : Options} (h : options.width < widthLimit)
    (environment : Option Text) :
    readJob (inputArguments options) environment = .ok ⟨options, none, 0, []⟩ := by
  let g : Given := { Given.nothing with format := some options.format }
  have hformat : readArguments .nothing .any (inputArguments options) =
      readArguments g .any ["--width".toList, Text.ofNat options.width] := by
    cases hf : options.format <;> simp only [inputArguments, g, hf] <;> rfl
  have hname : Command.readArgument g .any "--width".toList = .ok (g, .value .width) := rfl
  have hvalue : Command.readArgument g (.value .width) (Text.ofNat options.width) =
      .ok ({ g with width := some options.width }, .any) := by
    simp only [Command.readArgument, isDashed_ofNat, Given.set, readWidth?_ofNat h]
    rfl
  rw [readJob, hformat]
  simp only [readArguments, hname, hvalue, Except.bind, chooseWidth]
  simp [g, Given.nothing, Options.of_width]

/-- There are arguments without files for the options of every job. -/
theorem exists_readJob_input {arguments : List Text}
    (hj : readJob arguments environment = .ok job) :
    ∃ arguments₀ job₀, readJob arguments₀ environment = .ok job₀ ∧ job₀.files = [] ∧
      job₀.options = job.options :=
  ⟨inputArguments job.options, _, readJob_inputArguments (width_lt_of_readJob hj) environment, rfl,
    rfl⟩

end Wireframe.Command
