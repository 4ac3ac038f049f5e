import Wireframe.Proofs.Text.Ink
import Wireframe.Proofs.Text.Mark
import Wireframe.Proofs.Text.Trim
import Wireframe.Proofs.Width.Simple
import Wireframe.Row.Plain

/-! The characters of a row's plain form. Each replacement keeps characters of the row, drops some
and puts in brackets and words of printable ASCII (`Plainer`), and so does their chain
(`plainer_plain`). So the plain form of a simple row is simple. -/

namespace Wireframe

namespace Row

open Text Width

/-- All characters of the second text are printable ASCII or characters of the first. -/
def Plainer (t u : Text) : Prop := ∀ c ∈ u, c ∈ t ∨ inRanges asciiRanges c = true

namespace Plainer

variable {s t u v : Text}

theorem of_subset (h : ∀ c ∈ u, c ∈ t) : Plainer t u := fun c hc => .inl (h c hc)

theorem refl (t : Text) : Plainer t t := of_subset fun _ hc => hc

/-- A text of printable ASCII stands for any. -/
theorem of_ascii (h : u.all (inRanges asciiRanges) = true) : Plainer t u :=
  fun c hc => .inr (List.all_eq_true.1 h c hc)

theorem trans (htu : Plainer t u) (huv : Plainer u v) : Plainer t v := by
  intro c hc
  rcases huv c hc with hc | hc
  · exact htu c hc
  · exact .inr hc

theorem mono (htu : Plainer t u) (h : ∀ c ∈ t, c ∈ s) : Plainer s u :=
  (of_subset h).trans htu

theorem append (hu : Plainer t u) (hv : Plainer t v) : Plainer t (u ++ v) := by
  intro c hc
  rcases List.mem_append.1 hc with hc | hc
  · exact hu c hc
  · exact hv c hc

/-- Printable ASCII put around a text. -/
theorem enclose (lead trail : Text) (hl : lead.all (inRanges asciiRanges) = true)
    (ht : trail.all (inRanges asciiRanges) = true) (hu : Plainer t u) :
    Plainer t (lead ++ u ++ trail) :=
  ((of_ascii hl).append hu).append (of_ascii ht)

theorem flatMap {f : Char → Text} (h : ∀ c ∈ t, Plainer t (f c)) : Plainer t (t.flatMap f) := by
  intro c hc
  obtain ⟨d, hd, hc⟩ := List.mem_flatMap.1 hc
  exact h d hd c hc

end Plainer

/-! ### One replacement -/

theorem mem_of_mem_afterRun? {p : Char → Bool} {t rest : Text} {c : Char}
    (h : afterRun? p t = some rest) (hc : c ∈ rest) : c ∈ t := by
  obtain ⟨run, -, rfl⟩ := exists_of_afterRun? h
  exact List.mem_append_right run hc

theorem mem_of_mem_after? {lead t rest : Text} {c : Char} (h : after? lead t = some rest)
    (hc : c ∈ rest) : c ∈ t := by
  rw [after?_eq_some_iff.1 h]
  exact List.mem_append_right _ hc

/-- Replacing the spans of a mark puts in what the replacements of their bodies put in. -/
theorem plainer_replace {m : Mark} (hm : m.opening ≠ []) {f : Text → Text}
    (h : ∀ body, Plainer body (f body)) (t : Text) : Plainer t (m.replace f t) := by
  refine Mark.replace_induction hm (.refl []) ?_ (fun c => .refl [c]) (fun body _ _ => ?_) t
  · intro s t u v hst huv
    exact (hst.mono fun _ => List.mem_append_left u).append (huv.mono fun _ => List.mem_append_right s)
  · exact (h body).mono fun c hc => by simp [hc]

theorem plainer_afterHashes? (t : Text) : Plainer t ((afterHashes? t).getD t) := by
  cases h : afterHashes? t with
  | none => exact .refl t
  | some rest =>
    obtain ⟨u, hu, hrest⟩ := Option.bind_eq_some_iff.1 h
    exact .of_subset fun c hc => mem_of_mem_afterRun? hu (mem_of_mem_afterRun? hrest hc)

theorem plainer_afterNumber? (t : Text) : Plainer t ((afterNumber? t).getD t) := by
  cases h : afterNumber? t with
  | none => exact .refl t
  | some rest =>
    obtain ⟨u, hu, hrest⟩ := Option.bind_eq_some_iff.1 h
    obtain ⟨v, hv, hu⟩ := Option.bind_eq_some_iff.1 hu
    exact .of_subset fun c hc =>
      mem_of_mem_afterRun? hv (mem_of_mem_after? hu (mem_of_mem_afterRun? hrest hc))

theorem plainer_bracketed (t : Text) : Plainer t (bracketed t) :=
  .enclose ['['] [']'] (by decide) (by decide) (.refl t)

theorem plainer_emphasized (t : Text) : Plainer t (emphasized t) :=
  .enclose ['[', '!', ' '] [']'] (by decide) (by decide) (.refl t)

theorem plainer_humanize (t : Text) : Plainer t (humanize t) := by
  intro c hc
  obtain ⟨d, hd, rfl⟩ := List.mem_map.1 hc
  split
  · exact .inr (by decide)
  · exact .inl hd

theorem plainer_plainField (t : Text) : Plainer t (plainField t) := by
  rw [plainField]
  split
  · exact plainer_bracketed t
  · exact (plainer_humanize t).append (.of_ascii (by decide))

theorem plainer_plainBullet (t : Text) : Plainer t (plainBullet t) := by
  fun_cases plainBullet t with
  | case1 => exact .refl _
  | case2 c t hc item hi =>
    exact Plainer.append (u := ['-', ' ']) (.of_ascii (by decide))
      (.of_subset fun d hd => List.mem_cons_of_mem c (mem_of_mem_afterRun? hi hd))
  | case3 c t => exact .refl _
  | case4 c t => exact .refl _

theorem plainer_plainPrompt (t : Text) : Plainer t (plainPrompt t) := by
  rw [plainPrompt]
  split
  · next prompt h =>
    obtain ⟨u, hu, hq⟩ := Option.bind_eq_some_iff.1 h
    obtain ⟨v, hv, hu⟩ := Option.bind_eq_some_iff.1 hu
    have hprompt : ∀ c ∈ prompt, c ∈ t := by
      intro c hc
      refine mem_of_mem_after? hv (mem_of_mem_afterRun? hu ?_)
      rw [Mark.eq_of_whole? hq]
      simp [hc]
    exact .enclose ('[' :: "textarea: ".toList) [']'] (by decide) (by decide)
      (.of_subset hprompt)
  · exact .refl t

theorem plainer_plainArea (t : Text) : Plainer t (plainArea t) := by
  rw [plainArea]
  split
  · exact .of_ascii (by decide)
  · exact .refl t

/-! ### The chain of replacements -/

theorem plainer_of_mem_steps : ∀ step ∈ steps, ∀ t, Plainer t (step t) := by
  have hparen : ∀ label : Text, Plainer label ('(' :: label ++ [')']) :=
    fun label => .enclose ['('] [')'] (by decide) (by decide) (.refl label)
  have hangle : ∀ name : Text, Plainer name ('<' :: name ++ ['>']) :=
    fun name => .enclose ['<'] ['>'] (by decide) (by decide) (.refl name)
  simp only [steps, List.forall_mem_cons]
  exact ⟨plainer_afterHashes?, plainer_plainBullet, plainer_afterNumber?,
    plainer_replace (by decide) hparen, plainer_plainPrompt, plainer_plainArea,
    plainer_replace (by decide) plainer_plainField,
    plainer_replace (by decide) plainer_emphasized,
    plainer_replace (by decide) plainer_bracketed,
    plainer_replace (by decide) plainer_emphasized,
    plainer_replace (by decide) plainer_bracketed, plainer_replace (by decide) hangle,
    plainer_replace (by decide) .refl,
    by simp⟩

theorem plainer_foldl {fs : List (Text → Text)} (h : ∀ f ∈ fs, ∀ t, Plainer t (f t)) (t : Text) :
    Plainer t (fs.foldl (fun t f => f t) t) := by
  induction fs generalizing t with
  | nil => exact .refl t
  | cons f fs ih =>
    have hf : Plainer t (f t) := h f List.mem_cons_self t
    exact hf.trans (ih (fun g hg => h g (List.mem_cons_of_mem f hg)) (f t))

theorem plainer_squeeze (t : Text) : Plainer t (squeeze t) := by
  intro c hc
  rcases mem_of_mem_join hc with hc | hc
  · rw [List.mem_singleton.1 hc]
    exact .inr (by decide)
  · rw [flatten_words] at hc
    exact .inl (mem_of_mem_ink hc)

theorem plainer_pipes (inTable : Bool) (t : Text) :
    Plainer t (t.flatMap fun c => if c = '|' then plainPipe inTable else [c]) := by
  refine .flatMap fun c hc => ?_
  split
  · cases inTable <;> exact .of_ascii (by decide)
  · exact .of_subset fun d hd => List.mem_singleton.1 hd ▸ hc

/-- The plain form of a row holds characters of the row and printable ASCII alone. -/
theorem plainer_plain (t : Text) : Plainer t (plain t) := by
  have htrim : Plainer t t.trim := .of_subset fun _ hc => mem_of_mem_trim hc
  have hmarked := plainer_foldl plainer_of_mem_steps t.trim
  exact ((htrim.trans hmarked).trans (plainer_pipes _ _)).trans (plainer_squeeze _)

theorem simple_plain {t : Text} (h : t.Simple) : (plain t).Simple := by
  intro c hc
  rcases plainer_plain t c hc with hc | hc
  · exact h c hc
  · rw [isSimple, simpleRanges, inRanges, List.append_assoc, List.append_assoc, List.any_append]
    exact Bool.or_eq_true_iff.2 (.inl hc)

end Row

end Wireframe
