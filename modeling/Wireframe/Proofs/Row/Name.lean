import Wireframe.Proofs.Row.Label

/-! Names of icons and of buttons without quotes. Every replacement but the last passes by such a
name or puts the plain form of its mark around it. Links are replaced last, in the name as in the
text around it, so the name loses the underscores that stand around a part of it as around the label
of a link (`IsName.plain_source`), and it stays whole exactly when no link is written in it
(`IsName.plain_source_eq_form_iff`). -/

namespace Wireframe.Row

open Text Widget

/-- A letter, and letters, digits, underscores and dashes after it. -/
structure IsName (t : Text) : Prop where
  letter : ∃ c ∈ t.head?, c.isAlpha = true
  chars : ∀ c ∈ t, isIconChar c = true

theorem isName_iff {t : Text} :
    IsName t ↔ (t.head?.any Char.isAlpha && t.all isIconChar) = true := by
  rw [Bool.and_eq_true, Option.any_eq_true, List.all_eq_true]
  exact ⟨fun h => ⟨h.letter, h.chars⟩, fun h => ⟨h.1, h.2⟩⟩

instance (t : Text) : Decidable (IsName t) := decidable_of_iff _ isName_iff.symm

/-- The marks in which a name stands without quotes. -/
inductive NameMark where
  | icon
  | button (primary : Bool)

namespace NameMark

/-- The mark before a name. -/
def opening : NameMark → Text
  | icon => ['i', ':']
  | button primary => bangs primary

/-- A name in its mark. -/
def source (mark : NameMark) (name : Text) : Text := mark.opening ++ name

/-- What stands before and after a name in its plain form. -/
def around : NameMark → Text × Text
  | icon => (['<'], ['>'])
  | button true => (['[', '!', ' '], [']'])
  | button false => (['['], [']'])

/-- The plain form that shows a name. -/
def form (mark : NameMark) (name : Text) : Text := mark.around.1 ++ name ++ mark.around.2

variable {mark : NameMark} {name label : Text} {c : Char}

theorem form_button (primary : Bool) (name : Text) :
    (button primary).form name = plainButton primary name := by
  cases primary <;> rfl

theorem form_injective (mark : NameMark) : Function.Injective mark.form := fun _ _ h =>
  List.append_cancel_left (List.append_cancel_right h)

theorem worded_form (h : Worded name) : Worded (mark.form name) := by
  cases mark with
  | icon => exact h.enclose ['<'] ['>'] (by decide) (by decide)
  | button primary =>
    rw [form_button]
    exact worded_plainButton h

/-- Only a character of the name is in its form, but for those around it. -/
theorem mem_form (hc : c ∉ ['<', '>', '[', '!', ' ', ']']) : c ∈ mark.form name ↔ c ∈ name := by
  simp only [List.mem_cons, List.not_mem_nil, or_false, not_or] at hc
  cases mark with
  | icon => simp [form, around, hc]
  | button primary =>
    rw [form_button]
    exact mem_plainButton (by simp [hc])

/-- Links are replaced in the name alone. -/
theorem replace_form (mark : NameMark) (name : Text) :
    link.replace id (mark.form name) = mark.form (link.replace id name) := by
  have haround : '_' ∉ mark.around.1 ∧ '_' ∉ mark.around.2 := by
    cases mark with
    | icon => decide
    | button primary => cases primary <;> decide
  rw [form, Mark.replace_append_of_notMem (List.cons_ne_nil _ _) rfl rfl List.mem_cons_self
    haround.2, Mark.replace_append_of_start_notMem rfl haround.1, form]

end NameMark

namespace IsName

variable {name : Text} {mark : NameMark}

theorem isWord (h : IsName name) : IsWord name := by
  obtain ⟨c, hc, -⟩ := h.letter
  refine ⟨?_, fun d hd => not_blank_of_isIconChar (h.chars d hd)⟩
  rintro rfl
  exact Option.not_mem_none c hc

theorem labelChars (h : IsName name) : LabelChars name := fun c hc => .inr (h.chars c hc)

theorem passes (h : IsName name) (mark : NameMark) :
    Passes markSteps (mark.source name) (mark.form name) := by
  have hmarks := h.labelChars.markChars_notMem
  cases mark with
  | icon => exact passes_icon hmarks h.isWord.1 h.chars
  | button primary =>
    rw [NameMark.form_button]
    exact passes_bareButton hmarks h.isWord.1 fun c hc => isBareChar_of_isIconChar (h.chars c hc)

theorem worded_source (h : IsName name) (mark : NameMark) : Worded (mark.source name) := by
  have hopening : (mark.opening.all fun c => ! blank c) = true := by
    cases mark with
    | icon => decide
    | button primary => cases primary <;> decide
  have hsource := (Worded.of_isWord h.isWord).enclose mark.opening [] hopening rfl
  rwa [List.append_nil] at hsource

/-- Only the replacements of the mark and of links change a name in its mark. -/
theorem plain_source_eq (h : IsName name) (mark : NameMark) : plain (mark.source name) = squeeze
    ((link.replace id (mark.form name)).flatMap fun c => if c = '|' then [' '] else [c]) := by
  have hbegins : ∀ p : Char → Bool, p 'i' = false → p '!' = false → Ends p (mark.source name) := by
    intro p hi hbang
    cases mark with
    | icon => exact ends_cons hi _
    | button primary => cases primary <;> exact ends_cons hbang _
  have harea : after? area (mark.source name) = none :=
    after?_of_ends (hbegins _ (by decide) (by decide)) ['^']
  rw [plain_of_begins (h.worded_source mark).trimmed (hbegins _ (by decide) (by decide)) harea
    (hbegins _ (by decide) (by decide)),
    (h.passes mark).foldl_eq (cellwise_of_guarded guarded_markSteps)]

/-- The plain form of a name in its mark shows the name with the links in it replaced. -/
theorem plain_source (h : IsName name) (mark : NameMark) :
    plain (mark.source name) = mark.form (link.replace id name) := by
  have hword : IsWord (link.replace id name) := by
    refine Mark.isWord_replace (List.cons_ne_nil _ _) (fun body hleast hbody => ?_) h.isWord
    exact ⟨List.length_pos_iff.1 hleast, hbody⟩
  have hpipe : '|' ∉ mark.form (link.replace id name) := by
    rw [NameMark.mem_form (by decide)]
    exact Mark.notMem_replace (List.cons_ne_nil _ _) (fun _ => id)
      (h.labelChars.notMem (by decide) (by decide))
  rw [h.plain_source_eq, NameMark.replace_form, flatMap_of_pipe_notMem hpipe,
    (NameMark.worded_form (.of_isWord hword)).squeeze_eq]

/-- The plain form shows the name as it is if and only if there is no link in it. -/
theorem plain_source_eq_form_iff (h : IsName name) (mark : NameMark) :
    plain (mark.source name) = mark.form name ↔
      ∀ label, (Span.link label).Proper → ¬ (Span.link label).source <:+: name := by
  have hcount : ∀ body, (∀ c ∈ body, link.body c = true) →
      (id body).count '_' < (link.opening ++ body ++ link.closing).count '_' := by
    intro body _
    have hopening : link.opening.count '_' = 1 := by decide
    rw [List.count_append, List.count_append, hopening, id]
    omega
  rw [h.plain_source, (mark.form_injective).eq_iff,
    Mark.replace_eq_self_iff (List.cons_ne_nil _ _) hcount]
  constructor
  · rintro hnone label hlabel hinfix
    obtain ⟨u, ⟨rest, hprefix⟩, hsuffix⟩ := List.infix_iff_prefix_suffix.1 hinfix
    have hread := Span.read?_link_iff.2 ⟨hlabel, hprefix.symm⟩
    rw [hnone u hsuffix] at hread
    contradiction
  · intro hlink u hu
    refine Option.eq_none_iff_forall_ne_some.2 fun (label, rest) hread => ?_
    obtain ⟨hlabel, rfl⟩ := Span.read?_link_iff.1 hread
    exact hlink label hlabel ((List.prefix_append _ _).isInfix.trans hu.isInfix)

end IsName

end Wireframe.Row
