import Wireframe.Proofs.Row.Rules
import Wireframe.Proofs.Text.Trim

/-! Controls: text areas and fields, with a label or without. The rules for labelled controls look
for a colon, which may as well stand in a placeholder, a badge or a link. They refuse a text if no
control follows its first colon (`refuses_of_not_isControl`), and none follows a colon in a
placeholder: one quotation mark is left there, and a control ends in two or in none
(`refuses_of_isControl`). So a control is read by the rule of its kind, whatever its placeholder
holds (`dispatch_textarea`, `dispatch_input`). -/

namespace Wireframe.Row

open Text

/-! ### Parts of controls -/

/-- The label of a control. -/
structure Label (t : Text) : Prop where
  letter : ∃ c ∈ t.head?, c.isAlpha = true
  trimmed : t.Trimmed
  colon : ':' ∉ t

theorem Label.ne_nil {label : Text} (h : Label label) : label ≠ [] := by
  rintro rfl
  obtain ⟨c, hc, -⟩ := h.letter
  contradiction

theorem Label.ends {label : Text} (h : Label label) : Ends (· = '^') label := by
  obtain ⟨c, hc, hletter⟩ := h.letter
  intro d hd
  obtain rfl := Option.mem_unique hc hd
  refine decide_eq_false ?_
  rintro rfl
  exact absurd hletter (by decide)

/-- What is written for the label of a control: nothing, or the label and a colon. -/
inductive Labeled : Option Text → Text → Prop
  | none : Labeled none []
  | some {label gap : Text} (hl : Label label) (hg : ∀ c ∈ gap, blank c = true) :
      Labeled (some label) (label ++ ':' :: gap)

structure FieldName (t : Text) : Prop where
  ne_nil : t ≠ []
  chars : ∀ c ∈ t, isFieldChar c = true

/-- The end of a control: white space, and a placeholder in quotes or nothing. -/
inductive Placed : Text → Text → Prop
  | empty {gap : Text} (hg : ∀ c ∈ gap, blank c = true) : Placed [] gap
  | quoted {gap p : Text} (hg : ∀ c ∈ gap, blank c = true) (hp : '"' ∉ p) :
      Placed p (gap ++ '"' :: (p ++ ['"']))

namespace Widget

variable {t : Text}

/-! ### Labels -/

theorem labeled?_eq_some_iff {label rest : Text} : labeled? t = some (label, rest) ↔
    ∃ before after : Text, before ≠ [] ∧ ':' ∉ before ∧ t = before ++ ':' :: after ∧
      label = before.trim ∧ rest = after.trimStart := by
  rw [labeled?]
  constructor
  · intro h
    split at h
    · contradiction
    · next hne =>
      obtain ⟨after, hafter, he⟩ := Option.map_eq_some_iff.1 h
      obtain ⟨rfl, rfl⟩ := Prod.mk.inj he
      have hcut := List.takeWhile_append_dropWhile (p := fun c => decide (c ≠ ':')) (l := t)
      rw [after?_eq_some_iff.1 hafter] at hcut
      have hcolon : ':' ∉ t.takeWhile (· ≠ ':') :=
        forall_ne_iff.1 (List.all_eq_true.1 List.all_takeWhile)
      exact ⟨_, after, hne, hcolon, hcut.symm, rfl, rfl⟩
  · rintro ⟨before, after, hne, hcolon, rfl, rfl, rfl⟩
    have hafter : after? [':'] (':' :: after) = some after := after?_append [':'] after
    simp only [takeWhile_ne_append hcolon, dropWhile_ne_append hcolon, hafter]
    rw [if_neg hne, Option.map_some]

/-- What follows the label and the colon ends as the text does. -/
theorem exists_of_labeled?_append {s label rest : Text} {c : Char} (hc : c ≠ ':')
    (hb : blank c = false) (h : labeled? (s ++ [c]) = some (label, rest)) :
    ∃ before gap inner : Text, ':' ∉ before ∧ (∀ d ∈ gap, blank d = true) ∧
      before ≠ [] ∧ s = before ++ ':' :: (gap ++ inner) ∧ rest = inner ++ [c] := by
  obtain ⟨before, after, hne, hcolon, ht, -, rfl⟩ := labeled?_eq_some_iff.1 h
  rcases List.eq_nil_or_concat after with rfl | ⟨after, d, rfl⟩
  · exact absurd (List.append_inj_right' ht rfl) (by simpa using hc)
  · rw [List.concat_eq_append] at ht ⊢
    have hs : s ++ [c] = (before ++ ':' :: after) ++ [d] := by simpa using ht
    obtain ⟨rfl, hd⟩ := List.append_inj' hs rfl
    obtain rfl : c = d := by simpa using hd
    have htrim : trimStart (after ++ [c]) = after.dropWhile blank ++ [c] := by
      rw [trimStart, List.dropWhile_append]
      split
      · next hnil => simp [List.isEmpty_iff.1 hnil, hb]
      · rfl
    refine ⟨before, after.takeWhile blank, after.dropWhile blank, hcolon,
      List.all_eq_true.1 List.all_takeWhile, hne, ?_, htrim⟩
    rw [List.takeWhile_append_dropWhile]

/-! ### Controls -/

theorem placeholder?_eq_some_iff {p : Text} : placeholder? t = some p ↔ Placed p t := by
  rw [placeholder?]
  constructor
  · intro h
    have hcut : t = t.takeWhile blank ++ t.trimStart := List.takeWhile_append_dropWhile.symm
    have hgap : ∀ c ∈ t.takeWhile blank, blank c = true := List.all_eq_true.1 List.all_takeWhile
    split at h
    · next hnil =>
      obtain rfl := Option.some.inj h
      exact .empty (List.dropWhile_eq_nil_iff.1 hnil)
    · rw [Mark.whole?_eq_some_iff, Mark.read?_delimited_iff (q := '"') rfl rfl] at h
      obtain ⟨-, hp, hquoted⟩ := h
      rw [hcut, hquoted]
      simpa [quotation] using Placed.quoted hgap hp
  · intro h
    cases h with
    | empty hg => exact if_pos (List.dropWhile_eq_nil_iff.2 hg)
    | @quoted gap _ hg hp =>
      have hstart : trimStart (gap ++ '"' :: (p ++ ['"'])) = '"' :: (p ++ ['"']) :=
        dropWhile_append hg (ends_cons (by decide) _)
      have hwhole : { quotation with least := 0 }.whole? ('"' :: (p ++ ['"'])) = some p :=
        Mark.whole?_delimited (m := { quotation with least := 0 }) rfl rfl (Nat.zero_le _) hp
      rw [hstart, if_neg (List.cons_ne_nil _ _), hwhole]

theorem not_blank_of_isFieldChar {c : Char} (h : isFieldChar c = true) : blank c = false := by
  rcases Bool.or_eq_true_iff.1 h with h | h
  · exact not_blank_of_isAlphanum h
  · rw [of_decide_eq_true h]
    decide

theorem ends_of_placed {p : Text} (h : Placed p t) : Ends isFieldChar t := by
  intro c hc
  have hblank : ∀ d : Char, blank d = true → isFieldChar d = false := fun d hd =>
    Bool.eq_false_iff.2 fun hf => absurd hd (by simp [not_blank_of_isFieldChar hf])
  cases h with
  | empty hg => exact hblank c (hg c (List.mem_of_mem_head? hc))
  | @quoted gap _ hg hp =>
    cases gap with
    | nil =>
      obtain rfl := Option.some.inj hc
      decide
    | cons d gap =>
      obtain rfl := Option.some.inj hc
      exact hblank d (hg d List.mem_cons_self)

theorem area?_eq_some_iff {p : Text} :
    area? t = some p ↔ ∃ rest, Placed p rest ∧ t = area ++ rest := by
  simp only [area?, Option.bind_eq_some_iff, after?_eq_some_iff, placeholder?_eq_some_iff]
  exact exists_congr fun rest => and_comm

theorem field?_eq_some_iff {name p : Text} : field? t = some (name, p) ↔
    FieldName name ∧ ∃ rest, Placed p rest ∧ t = '^' :: (name ++ rest) := by
  simp only [field?, Option.bind_eq_some_iff, Option.map_eq_some_iff, Prod.exists, Prod.mk.injEq,
    Mark.read?_eq_some_iff, placeholder?_eq_some_iff]
  constructor
  · rintro ⟨_, rest, ⟨ht, hleast, hchars, -⟩, _, hp, rfl, rfl⟩
    exact ⟨⟨List.length_pos_iff.1 hleast, hchars⟩, rest, hp, by simpa [field] using ht⟩
  · rintro ⟨hn, rest, hp, rfl⟩
    exact ⟨name, rest, ⟨by simp [field], List.length_pos_iff.2 hn.ne_nil, hn.chars,
      ends_of_placed hp⟩, p, hp, rfl, rfl⟩

/-- What a control starts with: the mark of a text area or of a field. -/
def IsMark (mark : Text) : Prop := mark = area ∨ ∃ name, FieldName name ∧ mark = '^' :: name

/-- A control without a label. -/
def IsControl (t : Text) : Prop :=
  ∃ mark rest p : Text, IsMark mark ∧ Placed p rest ∧ t = mark ++ rest

theorem IsMark.chars {mark : Text} (h : IsMark mark) {c : Char} (hc : c ∈ mark) :
    c = '^' ∨ isFieldChar c = true := by
  rcases h with rfl | ⟨name, hn, rfl⟩
  · exact .inl (by simpa [area] using hc)
  · exact (List.mem_cons.1 hc).imp_right (hn.chars c)

theorem IsMark.exists_cons {mark : Text} (h : IsMark mark) : ∃ more, mark = '^' :: more := by
  rcases h with rfl | ⟨name, -, rfl⟩
  · exact ⟨['^'], rfl⟩
  · exact ⟨name, rfl⟩

theorem isControl_of_area? {p : Text} (h : area? t = some p) : IsControl t := by
  obtain ⟨rest, hp, rfl⟩ := area?_eq_some_iff.1 h
  exact ⟨area, rest, p, .inl rfl, hp, rfl⟩

theorem isControl_of_field? {name p : Text} (h : field? t = some (name, p)) : IsControl t := by
  obtain ⟨hn, rest, hp, rfl⟩ := field?_eq_some_iff.1 h
  exact ⟨'^' :: name, rest, p, .inr ⟨name, hn, rfl⟩, hp, rfl⟩

/-- A control that ends in a quotation mark holds another. -/
theorem not_isControl_of_quote {s : Text} (hs : '"' ∉ s) : ¬ IsControl (s ++ ['"']) := by
  rintro ⟨mark, rest, p, hmark, hp, he⟩
  have hquote : '"' ∉ mark := fun hc => absurd (hmark.chars hc) (by decide)
  cases hp with
  | empty hg =>
    have hmem : '"' ∈ mark ++ rest := he ▸ by simp
    rcases List.mem_append.1 hmem with hmem | hmem
    · exact hquote hmem
    · exact absurd (hg _ hmem) (by decide)
  | @quoted gap _ hg hp =>
    have hs' : s ++ ['"'] = (mark ++ (gap ++ '"' :: p)) ++ ['"'] := by simpa using he
    exact hs (by simp [List.append_cancel_right hs'])

/-- A control that ends neither in white space nor in a quotation mark has no placeholder. -/
theorem isMark_of_isControl {s : Text} {c : Char} (hb : blank c = false) (hq : c ≠ '"')
    (h : IsControl (s ++ [c])) : IsMark (s ++ [c]) := by
  obtain ⟨mark, rest, p, hmark, hp, he⟩ := h
  have hlast : ∀ {u : Text} {d : Char}, rest = u ++ [d] → d = c := by
    rintro u d rfl
    rw [← List.append_assoc] at he
    simpa using (List.append_inj_right' he rfl).symm
  cases hp with
  | empty hg =>
    rcases List.eq_nil_or_concat rest with rfl | ⟨gap, d, rfl⟩
    · rwa [he, List.append_nil]
    · rw [List.concat_eq_append] at hg hlast
      have hd : blank d = true := hg d (by simp)
      rw [hlast rfl, hb] at hd
      contradiction
  | @quoted gap _ hg hp => exact absurd (hlast (u := gap ++ '"' :: p) (by simp)).symm hq

theorem caret_mem_of_labeled? {label rest : Text} (hl : labeled? t = some (label, rest))
    (h : IsControl rest) : '^' ∈ t := by
  obtain ⟨before, after, -, -, rfl, -, rfl⟩ := labeled?_eq_some_iff.1 hl
  obtain ⟨mark, rest, p, hmark, -, he⟩ := h
  obtain ⟨more, rfl⟩ := hmark.exists_cons
  have hafter : '^' ∈ after := (List.dropWhile_sublist blank).mem (by rw [← trimStart, he]; simp)
  exact List.mem_append_right _ (List.mem_cons_of_mem _ hafter)

/-- The rules for labelled controls refuse a text if no control follows its first colon. -/
theorem refuses_of_not_isControl
    (h : ∀ label rest, labeled? t = some (label, rest) → ¬ IsControl rest) :
    labeledTextarea? t = none ∧ labeledInput? t = none := by
  constructor
  · refine Option.bind_eq_none_iff.2 fun (label, rest) hl => Option.map_eq_none_iff.2 ?_
    exact Option.eq_none_iff_forall_ne_some.2 fun p hp => h label rest hl (isControl_of_area? hp)
  · refine Option.bind_eq_none_iff.2 fun (label, rest) hl => Option.map_eq_none_iff.2 ?_
    exact Option.eq_none_iff_forall_ne_some.2 fun (name, p) hp =>
      h label rest hl (isControl_of_field? hp)

/-- A colon in a placeholder is followed by one quotation mark only, so no control follows it. -/
theorem refuses_of_isControl (h : IsControl t) :
    labeledTextarea? t = none ∧ labeledInput? t = none := by
  obtain ⟨mark, rest, p, hmark, hp, rfl⟩ := h
  have hcolon : ':' ∉ mark := fun hc => absurd (hmark.chars hc) (by decide)
  refine refuses_of_not_isControl fun label after hl => ?_
  cases hp with
  | empty hg =>
    obtain ⟨before, after, -, -, ht, -⟩ := labeled?_eq_some_iff.1 hl
    have hmem : ':' ∈ mark ++ rest := ht ▸ by simp
    rcases List.mem_append.1 hmem with hmem | hmem
    · exact absurd hmem hcolon
    · exact absurd (hg _ hmem) (by decide)
  | @quoted gap _ hg hp =>
    have ht : mark ++ (gap ++ '"' :: (p ++ ['"'])) = ((mark ++ (gap ++ ['"'])) ++ p) ++ ['"'] := by
      simp
    rw [ht] at hl
    obtain ⟨before, gap', inner, -, -, -, hs, rfl⟩ :=
      exists_of_labeled?_append (by decide) (by decide) hl
    have hgap : ':' ∉ gap := fun hc => absurd (hg _ hc) (by decide)
    have hsuffix := suffix_of_append_eq (by simp [hcolon, hgap]) hs
    exact not_isControl_of_quote fun hc => hp (hsuffix.mem (by simp [hc]))

/-! ### Controls as they are written -/

theorem Refused.of_label {label : Text} (h : Label label) (t : Text) : Refused (label ++ t) 8 := by
  obtain ⟨c, hc, hletter⟩ := h.letter
  obtain ⟨more, rfl⟩ := List.head?_eq_some_iff.1 hc
  exact .of_letter hletter _

theorem area?_field {name rest : Text} (hn : FieldName name) :
    area? ('^' :: (name ++ rest)) = none := by
  obtain ⟨c, name, rfl⟩ := List.exists_cons_of_ne_nil hn.ne_nil
  have hc : '^' ≠ c := by
    rintro rfl
    exact absurd (hn.chars '^' List.mem_cons_self) (by decide)
  simp [area?, area, after?, hc]

/-- A label is read up to its colon, and the white space after that is passed over. -/
theorem labeled?_written {before gap : Text} (hne : before ≠ []) (hcolon : ':' ∉ before)
    (hg : ∀ c ∈ gap, blank c = true) (ht : Ends blank t) :
    labeled? (before ++ ':' :: gap ++ t) = some (before.trim, t) :=
  labeled?_eq_some_iff.2
    ⟨before, gap ++ t, hne, hcolon, by simp, rfl, (dropWhile_append hg ht).symm⟩

theorem labeledTextarea?_of_labeled? {label rest : Text} (h : labeled? t = some (label, rest)) :
    labeledTextarea? t = (area? rest).map (.textarea (some label)) := by
  rw [labeledTextarea?, h]
  rfl

theorem labeledInput?_of_labeled? {label rest : Text} (h : labeled? t = some (label, rest)) :
    labeledInput? t = (field? rest).map fun (name, p) => .input (some label) name p := by
  rw [labeledInput?, h]
  rfl

theorem dispatch_labeledTextarea {before gap p rest : Text} (hne : before ≠ [])
    (hcolon : ':' ∉ before) (hg : ∀ c ∈ gap, blank c = true) (hp : Placed p rest)
    (h : Refused (before ++ ':' :: gap ++ (area ++ rest)) 8) :
    dispatch (before ++ ':' :: gap ++ (area ++ rest)) =
      (ruleName (.textarea (some before.trim) p), .textarea (some before.trim) p) := by
  have hlabel := labeled?_written (t := area ++ rest) hne hcolon hg (ends_cons (by decide) _)
  refine h.dispatch_eq rfl ?_
  rw [labeledTextarea?_of_labeled? hlabel, area?_eq_some_iff.2 ⟨rest, hp, rfl⟩, Option.map_some]

theorem dispatch_labeledInput {before gap name p rest : Text} (hne : before ≠ [])
    (hcolon : ':' ∉ before) (hg : ∀ c ∈ gap, blank c = true) (hn : FieldName name)
    (hp : Placed p rest) (hends : Ends (· = '^') before)
    (h : Refused (before ++ ':' :: gap ++ '^' :: (name ++ rest)) 8) :
    dispatch (before ++ ':' :: gap ++ '^' :: (name ++ rest)) =
      (ruleName (.input (some before.trim) name p), .input (some before.trim) name p) := by
  have hlabel : labeled? (before ++ ':' :: gap ++ '^' :: (name ++ rest)) =
      some (before.trim, '^' :: (name ++ rest)) :=
    labeled?_written hne hcolon hg (ends_cons (by decide) _)
  have harea : labeledTextarea? (before ++ ':' :: gap ++ '^' :: (name ++ rest)) = none := by
    rw [labeledTextarea?_of_labeled? hlabel, area?_field hn, Option.map_none]
  have hstart : textarea? (before ++ ':' :: gap ++ '^' :: (name ++ rest)) = none := by
    obtain ⟨c, before, rfl⟩ := List.exists_cons_of_ne_nil hne
    exact textarea?_of_ends (ends_cons (hends c rfl) _)
  refine ((h.next rfl harea).next rfl hstart).dispatch_eq rfl ?_
  rw [labeledInput?_of_labeled? hlabel, field?_eq_some_iff.2 ⟨hn, rest, hp, rfl⟩, Option.map_some]

theorem dispatch_textarea {label : Option Text} {lead p rest : Text} (hl : Labeled label lead)
    (hp : Placed p rest) :
    dispatch (lead ++ (area ++ rest)) = (ruleName (.textarea label p), .textarea label p) := by
  cases hl with
  | none =>
    obtain ⟨harea, -⟩ := refuses_of_isControl ⟨area, rest, p, .inl rfl, hp, rfl⟩
    refine ((Refused.of_head (i := 8) (by decide) _).next rfl harea).dispatch_eq rfl ?_
    exact congrArg (Option.map _) (area?_eq_some_iff.2 ⟨rest, hp, rfl⟩)
  | @some label gap hl hg =>
    have hrefused : Refused (label ++ ':' :: gap ++ (area ++ rest)) 8 := by
      rw [List.append_assoc]
      exact .of_label hl _
    have hread := dispatch_labeledTextarea hl.ne_nil hl.colon hg hp hrefused
    rwa [trim_of_trimmed hl.trimmed] at hread

theorem dispatch_input {label : Option Text} {lead name p rest : Text} (hl : Labeled label lead)
    (hn : FieldName name) (hp : Placed p rest) :
    dispatch (lead ++ '^' :: (name ++ rest)) =
      (ruleName (.input label name p), .input label name p) := by
  cases hl with
  | none =>
    obtain ⟨harea, hfield⟩ :=
      refuses_of_isControl ⟨'^' :: name, rest, p, .inr ⟨name, hn, rfl⟩, hp, rfl⟩
    have htextarea : textarea? ('^' :: (name ++ rest)) = none := by
      rw [textarea?, area?_field hn, Option.map_none]
    refine ((((Refused.of_head (i := 8) (by decide) _).next rfl harea).next rfl
      htextarea).next rfl hfield).dispatch_eq rfl ?_
    exact congrArg (Option.map _) (field?_eq_some_iff.2 ⟨hn, rest, hp, rfl⟩)
  | @some label gap hl hg =>
    have hrefused : Refused (label ++ ':' :: gap ++ '^' :: (name ++ rest)) 8 := by
      rw [List.append_assoc]
      exact .of_label hl _
    have hread := dispatch_labeledInput hl.ne_nil hl.colon hg hn hp hl.ends hrefused
    rwa [trim_of_trimmed hl.trimmed] at hread

end Widget

end Wireframe.Row
