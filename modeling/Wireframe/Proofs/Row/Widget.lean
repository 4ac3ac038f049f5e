import Wireframe.Proofs.Row.Control
import Wireframe.Proofs.Row.Inline

/-! Widgets as they are written. A widget is written in the texts of its kind (`Written`), and such a
text is read as that widget by the rule of its kind (`dispatch_of_written`). What is between the
marks may be any text that does not end the mark, so it may hold the marks of other kinds. One kind
is read as another: a link whose label ends in a field is a field with a label
(`dispatch_link_of_endsInField`). -/

namespace Wireframe.Row

open Text

/-! ### Payloads -/

/-- The text of a heading, an item or a choice. -/
structure Phrase (t : Text) : Prop where
  ne_nil : t ≠ []
  trimmed : t.Trimmed
  oneLine : '\n' ∉ t

/-- White space between a mark and a text. -/
structure Gap (t : Text) : Prop where
  ne_nil : t ≠ []
  chars : ∀ c ∈ t, blank c = true

/-- The label of a button without quotes. -/
structure Bare (t : Text) : Prop where
  ne_nil : t ≠ []
  chars : ∀ c ∈ t, blank c = false ∧ c ≠ '|'
  head : t.head? ≠ some '!' ∧ t.head? ≠ some '"'

/-- The label of a link that ends in a colon and a mark of a field, so that the link is also a field
with a label. -/
def EndsInField (label : Text) : Prop :=
  ∃ before gap name : Text, ':' ∉ before ∧ (∀ c ∈ gap, blank c = true) ∧
    (∀ c ∈ name, c.isAlphanum = true ∨ c = '_') ∧ label = before ++ ':' :: (gap ++ '^' :: name)

theorem isFieldChar_iff {c : Char} : isFieldChar c = true ↔ c.isAlphanum = true ∨ c = '_' := by
  simp [isFieldChar]

theorem isIconChar_iff {c : Char} :
    isIconChar c = true ↔ c.isAlphanum = true ∨ c = '_' ∨ c = '-' := by
  simp [isIconChar, isFieldChar, or_assoc]

theorem isBareChar_iff {c : Char} : isBareChar c = true ↔ blank c = false ∧ c ≠ '|' := by
  simp [isBareChar]

theorem Phrase.afterBlanks?_eq {gap t : Text} (hg : Gap gap) (h : Phrase t) :
    afterBlanks? (gap ++ t) = some t :=
  afterRun?_append hg.ne_nil hg.chars h.trimmed.1

/-- A gap starts with no character that is not white space. -/
theorem Gap.ends {gap : Text} (hg : Gap gap) {p : Char → Bool}
    (hp : ∀ c, p c = true → blank c = false) (t : Text) : Ends p (gap ++ t) := by
  obtain ⟨c, gap, rfl⟩ := List.exists_cons_of_ne_nil hg.ne_nil
  refine ends_cons (Bool.eq_false_iff.2 fun hc => ?_) _
  have hblank := hg.chars c List.mem_cons_self
  rw [hp c hc] at hblank
  contradiction

namespace Choice

def opening : Choice → Char
  | checkbox => '['
  | radio => '('

def closing : Choice → Char
  | checkbox => ']'
  | radio => ')'

/-- A choice without its label, given what stands between its brackets. -/
def box (choice : Choice) (state : Text) : Text := choice.opening :: (state ++ [choice.closing])

/-- What may stand between the brackets of a choice, and whether it is checked. -/
def states : List (Text × Bool) := [(['x'], true), (['X'], true), ([' '], false), ([], false)]

end Choice

namespace Widget

variable {t : Text} {w : Widget}

/-! ### Phrases -/

theorem oneLine?_phrase (h : Phrase t) : oneLine? t = some t := if_pos ⟨h.ne_nil, h.oneLine⟩

theorem heading?_written {level : Fin 6} {gap : Text} (hg : Gap gap) (ht : Phrase t) :
    heading? (List.replicate (level + 1) '#' ++ (gap ++ t)) = some (.heading level t) := by
  have hrun : ∀ c ∈ List.replicate (level + 1 : ℕ) '#', decide (c = '#') = true := by
    intro c hc
    exact decide_eq_true (List.eq_of_mem_replicate hc)
  have hends : Ends (· = '#') (gap ++ t) :=
    hg.ends (fun c hc => by rw [of_decide_eq_true hc]; decide) t
  have hafter : afterHashes? (List.replicate (level + 1 : ℕ) '#' ++ (gap ++ t)) = some t := by
    rw [afterHashes?, afterRun?_append (by simp) hrun hends, Option.bind_some,
      ht.afterBlanks?_eq hg]
  rw [heading?]
  simp only [takeWhile_append hrun hends, List.length_replicate, hafter, Option.bind_some]
  rw [dif_pos (by omega), oneLine?_phrase ht]
  rfl

theorem bullet?_written {gap : Text} (hg : Gap gap) (ht : Phrase t) :
    bullet? ('-' :: (gap ++ t)) = some (.bullet t) := by
  have hafter : after? ['-'] ('-' :: (gap ++ t)) = some (gap ++ t) := after?_append ['-'] _
  rw [bullet?, hafter, Option.bind_some, ht.afterBlanks?_eq hg, Option.bind_some,
    oneLine?_phrase ht, Option.map_some]

theorem ordered?_written {number gap : Text} (hn : number ≠ []) (hd : ∀ c ∈ number, digit c = true)
    (hg : Gap gap) (ht : Phrase t) :
    ordered? (number ++ '.' :: (gap ++ t)) = some (.ordered t) := by
  have hafter : after? ['.'] ('.' :: (gap ++ t)) = some (gap ++ t) := after?_append ['.'] _
  rw [ordered?, afterNumber?, afterRun?_append hn hd (ends_cons (by decide) _), Option.bind_some,
    hafter, Option.bind_some, ht.afterBlanks?_eq hg, Option.bind_some, oneLine?_phrase ht,
    Option.map_some]

theorem dispatch_bullet {gap : Text} (hg : Gap gap) (ht : Phrase t) :
    dispatch ('-' :: (gap ++ t)) = (ruleName (.bullet t), .bullet t) := by
  have hrule : rule? ('-' :: (gap ++ t)) = none := by
    have hends : Ends (· = '-') (gap ++ t) :=
      hg.ends (fun c hc => by rw [of_decide_eq_true hc]; decide) t
    refine if_neg fun he => ?_
    rw [(List.cons.inj he).2] at hends
    exact absurd (hends '-' rfl) (by decide)
  exact ((Refused.of_head (i := 1) (by decide) _).next rfl hrule).dispatch_eq rfl
    (bullet?_written hg ht)

theorem dispatch_ordered {number gap : Text} (hn : number ≠ [])
    (hd : ∀ c ∈ number, digit c = true) (hg : Gap gap) (ht : Phrase t) :
    dispatch (number ++ '.' :: (gap ++ t)) = (ruleName (.ordered t), .ordered t) := by
  have hread := ordered?_written hn hd hg ht
  obtain ⟨c, number, rfl⟩ := List.exists_cons_of_ne_nil hn
  have hc : digit c = true := hd c List.mem_cons_self
  have hne : ∀ d : Char, digit d = false → c ≠ d :=
    fun d hd => ne_of_apply_ne digit (by simp [hc, hd])
  have hleads : (leads.take 3).all (fun lead => ! lead c) = true := by
    simp [leads, hne '#' (by decide), hne '-' (by decide)]
  exact (Refused.of_head hleads _).dispatch_eq rfl hread

/-! ### Choices -/

theorem checked?_box {opening closing : Char} {state rest : Text} {checked : Bool}
    (hc : closing ∉ ['x', 'X', ' ']) (hs : (state, checked) ∈ Choice.states) :
    checked? opening closing (opening :: (state ++ closing :: rest)) = some (checked, rest) := by
  simp only [List.mem_cons, List.not_mem_nil, or_false, not_or] at hc
  obtain ⟨hx, hX, hspace⟩ := hc
  simp only [Choice.states, List.mem_cons, Prod.mk.injEq, List.not_mem_nil, or_false] at hs
  rcases hs with ⟨rfl, rfl⟩ | ⟨rfl, rfl⟩ | ⟨rfl, rfl⟩ | ⟨rfl, rfl⟩
  · simp [checked?, Ne.symm hx]
  · simp [checked?, Ne.symm hX]
  · simp [checked?, Ne.symm hspace]
  · cases rest <;> simp [checked?]

theorem choice?_box (choice : Choice) {state rest : Text} {checked : Bool}
    (hs : (state, checked) ∈ Choice.states) (hn : '\n' ∉ rest.trimStart) :
    choice? choice choice.opening choice.closing (choice.box state ++ rest) =
      some (.choice choice checked rest.trimStart) := by
  have hbox : choice.box state ++ rest = choice.opening :: (state ++ choice.closing :: rest) := by
    simp [Choice.box]
  rw [choice?, hbox, checked?_box (by cases choice <;> decide) hs, Option.bind_some]
  exact if_neg hn

theorem dispatch_choice (choice : Choice) {state rest : Text} {checked : Bool}
    (hs : (state, checked) ∈ Choice.states) (hn : '\n' ∉ rest.trimStart) :
    dispatch (choice.box state ++ rest) = (ruleName (.choice choice checked rest.trimStart),
      .choice choice checked rest.trimStart) := by
  have hread := choice?_box choice hs hn
  cases choice with
  | checkbox => exact (Refused.of_head (i := 4) (by decide) _).dispatch_eq rfl hread
  | radio => exact (Refused.of_head (i := 5) (by decide) _).dispatch_eq rfl hread

/-! ### Buttons -/

/-- The exclamation marks before the label of a button. -/
def bangs : (primary : Bool) → Text
  | true => ['!', '!']
  | false => ['!']

theorem button?_of_quoted {primary : Bool} {quoted bare : Mark} {label : Text}
    (h : quoted.whole? t = some label) :
    button? primary quoted bare t = some (.button primary label) := by
  rw [button?, h]
  rfl

theorem button?_of_bare {primary : Bool} {quoted bare : Mark} {label : Text}
    (hq : quoted.whole? t = none) (hb : bare.whole? t = some label) :
    button? primary quoted bare t = some (.button primary label) := by
  rw [button?, hq, hb]
  rfl

/-- After one exclamation mark a second has to follow in a primary button. -/
theorem button?_primary_eq_none (h : Ends (· = '!') t) :
    button? true quotedPrimary barePrimary ('!' :: t) = none := by
  have hopen : ∀ {m : Mark} {more : Text}, m.opening = '!' :: '!' :: more →
      m.whole? ('!' :: t) = none := by
    intro m more ho
    rw [Mark.whole?, Mark.read?, ho, after?, if_pos rfl, after?_of_ends h]
    rfl
  rw [button?, hopen rfl, hopen rfl]
  rfl

theorem dispatch_quotedButton {primary : Bool} {label : Text} (hne : label ≠ [])
    (hl : '"' ∉ label) : dispatch (bangs primary ++ '"' :: (label ++ ['"'])) =
      (ruleName (.button primary label), .button primary label) := by
  have hleast : 1 ≤ label.length := List.length_pos_iff.2 hne
  cases primary with
  | true =>
    have hread : quotedPrimary.whole? ('!' :: '!' :: '"' :: (label ++ ['"'])) = some label :=
      Mark.whole?_delimited rfl rfl hleast hl
    exact (Refused.of_head (i := 6) (by decide) _).dispatch_eq rfl (button?_of_quoted hread)
  | false =>
    have hread : quotedButton.whole? ('!' :: '"' :: (label ++ ['"'])) = some label :=
      Mark.whole?_delimited rfl rfl hleast hl
    have hquote : Ends (· = '!') ('"' :: (label ++ ['"'])) := ends_cons (by decide) _
    exact ((Refused.of_head (i := 6) (by decide) _).next rfl
      (button?_primary_eq_none hquote)).dispatch_eq rfl (button?_of_quoted hread)

theorem dispatch_bareButton {primary : Bool} {label : Text} (hl : Bare label) :
    dispatch (bangs primary ++ label) =
      (ruleName (.button primary label), .button primary label) := by
  obtain ⟨c, more, rfl⟩ := List.exists_cons_of_ne_nil hl.ne_nil
  have hbang : Ends (· = '!') (c :: more) := ends_cons (by simpa using hl.head.1) more
  have hquote : '"' ≠ c := fun h => hl.head.2 (h ▸ rfl)
  have hchars : ∀ d ∈ c :: more, isBareChar d = true := fun d hd => isBareChar_iff.2 (hl.chars d hd)
  cases primary with
  | true =>
    have hquoted : quotedPrimary.whole? ('!' :: '!' :: c :: more) = none := by
      simp [Mark.whole?, Mark.read?, quotedPrimary, after?, hquote]
    have hread : barePrimary.whole? ('!' :: '!' :: c :: more) = some (c :: more) :=
      Mark.whole?_unclosed rfl (Nat.succ_pos _) hchars
    exact (Refused.of_head (i := 6) (by decide) _).dispatch_eq rfl (button?_of_bare hquoted hread)
  | false =>
    have hquoted : quotedButton.whole? ('!' :: c :: more) = none := by
      simp [Mark.whole?, Mark.read?, quotedButton, after?, hquote]
    have hread : bareButton.whole? ('!' :: c :: more) = some (c :: more) :=
      Mark.whole?_unclosed rfl (Nat.succ_pos _) hchars
    exact ((Refused.of_head (i := 6) (by decide) _).next rfl
      (button?_primary_eq_none hbang)).dispatch_eq rfl (button?_of_bare hquoted hread)

/-! ### Icons, badges and links -/

/-- A text in which no control follows the first colon and that starts with neither a mark nor a
control passes all rules before the one for icons. -/
theorem Refused.of_not_isControl (h : Refused t 8) (hends : Ends (· = '^') t)
    (hl : ∀ label rest, labeled? t = some (label, rest) → ¬ IsControl rest) : Refused t 12 := by
  obtain ⟨harea, hfield⟩ := refuses_of_not_isControl hl
  exact (((h.next rfl harea).next rfl (textarea?_of_ends hends)).next rfl hfield).next rfl
    (input?_of_ends hends)

theorem dispatch_icon {name : Text} (hne : name ≠ [])
    (hn : ∀ c ∈ name, c.isAlphanum = true ∨ c = '_' ∨ c = '-') :
    dispatch ('i' :: ':' :: name) = (ruleName (.icon name), .icon name) := by
  have hread : Row.icon.whole? ('i' :: ':' :: name) = some name :=
    Mark.whole?_unclosed rfl (List.length_pos_iff.2 hne) fun c hc => isIconChar_iff.2 (hn c hc)
  have hrefused : Refused ('i' :: ':' :: name) 12 := by
    refine .of_not_isControl (.of_head (by decide) _) (ends_cons (by decide) _) ?_
    intro label rest hl hcontrol
    rcases List.mem_cons.1 (caret_mem_of_labeled? hl hcontrol) with h | h
    · exact absurd h (by decide)
    rcases List.mem_cons.1 h with h | h
    · exact absurd h (by decide)
    · exact absurd (hn _ h) (by decide)
  exact hrefused.dispatch_eq rfl (by rw [hread]; rfl)

theorem dispatch_badge {label : Text} (h : (Span.badge label).Proper) :
    dispatch (Span.badge label).source = (ruleName (.badge label), .badge label) := by
  have hread : Row.badge.whole? (Span.badge label).source = some label :=
    Mark.whole?_eq_some_iff.2 (Span.read?_badge_iff.2 ⟨h, (List.append_nil _).symm⟩)
  have hsource : (Span.badge label).source = ('\x60' :: '(' :: (label ++ [')'])) ++ ['\x60'] := by
    simp [Span.source]
  have hrefused : Refused (Span.badge label).source 12 := by
    refine .of_not_isControl (.of_head (by decide) _) (ends_cons (by decide) _) ?_
    intro name rest hl hcontrol
    rw [hsource] at hl
    obtain ⟨-, -, inner, -, -, -, -, rfl⟩ := exists_of_labeled?_append (by decide) (by decide) hl
    have hmark := isMark_of_isControl (by decide) (by decide) hcontrol
    exact absurd (hmark.chars (List.mem_append_right inner List.mem_cons_self)) (by decide)
  have hicon : Row.icon.whole? (Span.badge label).source = none :=
    Mark.whole?_of_ends (c := 'i') rfl (ends_cons (by decide) _)
  refine (hrefused.next rfl (by rw [hicon, Option.map_none])).dispatch_eq rfl ?_
  rw [hread]
  rfl

/-- A mark that ends in an underscore is that of a field. -/
theorem exists_of_isMark_append {s : Text} (h : IsMark (s ++ ['_'])) :
    ∃ name, s = '^' :: name ∧ ∀ c ∈ name, c.isAlphanum = true ∨ c = '_' := by
  rcases h with h | ⟨name, hn, h⟩
  · have hmem : '_' ∈ area := h ▸ List.mem_append_right s List.mem_cons_self
    exact absurd hmem (by decide)
  · cases s with
    | nil => exact absurd (List.cons.inj h).1 (by decide)
    | cons c s =>
      obtain ⟨rfl, rfl⟩ := List.cons.inj h
      exact ⟨s, rfl, fun d hd => isFieldChar_iff.1 (hn.chars d (List.mem_append_left _ hd))⟩

theorem dispatch_link {label : Text} (h : (Span.link label).Proper) (hf : ¬ EndsInField label) :
    dispatch (Span.link label).source = (ruleName (.link label), .link label) := by
  have hread : Row.link.whole? (Span.link label).source = some label :=
    Mark.whole?_eq_some_iff.2 (Span.read?_link_iff.2 ⟨h, (List.append_nil _).symm⟩)
  have hrefused : Refused (Span.link label).source 12 := by
    refine .of_not_isControl (.of_head (by decide) _) (ends_cons (by decide) _) ?_
    intro name rest hl hcontrol
    obtain ⟨before, gap, inner, hcolon, hgap, hne, hs, rfl⟩ :=
      exists_of_labeled?_append (s := '_' :: label) (by decide) (by decide) hl
    obtain ⟨c, before, rfl⟩ := List.exists_cons_of_ne_nil hne
    obtain ⟨-, hlabel⟩ := List.cons.inj hs
    obtain ⟨field, hinner, hchars⟩ :=
      exists_of_isMark_append (isMark_of_isControl (by decide) (by decide) hcontrol)
    rw [hinner] at hlabel
    exact hf
      ⟨before, gap, field, fun hc => hcolon (List.mem_cons_of_mem c hc), hgap, hchars, hlabel⟩
  have hicon : Row.icon.whole? (Span.link label).source = none :=
    Mark.whole?_of_ends (c := 'i') rfl (ends_cons (by decide) _)
  have hbadge : Row.badge.whole? (Span.link label).source = none :=
    Mark.whole?_of_ends (c := '\x60') rfl (ends_cons (by decide) _)
  refine ((hrefused.next rfl (by rw [hicon, Option.map_none])).next rfl
    (by rw [hbadge, Option.map_none])).dispatch_eq rfl ?_
  rw [hread]
  rfl

/-- A link whose label ends in a field is read as that field, its closing underscore the end of the
name. -/
theorem dispatch_link_of_endsInField {label : Text} (hf : EndsInField label) :
    ∃ before name : Text, dispatch (Span.link label).source =
      (ruleName (.input (some before) name []), .input (some before) name []) := by
  obtain ⟨before, gap, name, hcolon, hg, hn, rfl⟩ := hf
  have hname : FieldName (name ++ ['_']) := by
    refine ⟨by simp, fun c hc => ?_⟩
    rcases List.mem_append.1 hc with hc | hc
    · exact isFieldChar_iff.2 (hn c hc)
    · rw [List.mem_singleton.1 hc]
      decide
  have hsource : (Span.link (before ++ ':' :: (gap ++ '^' :: name))).source =
      ('_' :: before) ++ ':' :: gap ++ '^' :: ((name ++ ['_']) ++ []) := by
    simp [Span.source]
  have hcolon : ':' ∉ '_' :: before := by simpa using hcolon
  refine ⟨trim ('_' :: before), name ++ ['_'], ?_⟩
  rw [hsource]
  exact dispatch_labeledInput (List.cons_ne_nil _ _) hcolon hg hname
    (.empty fun _ hc => absurd hc List.not_mem_nil) (ends_cons (by decide) before)
    (.of_head (by decide) _)

/-! ### All kinds -/

/-- The texts in which a widget is written. -/
inductive Written : Widget → Text → Prop
  | heading {level : Fin 6} {gap t : Text} (hg : Gap gap) (ht : Phrase t) :
      Written (.heading level t) (List.replicate (level + 1) '#' ++ (gap ++ t))
  | rule : Written .rule ['-', '-', '-']
  | bullet {gap t : Text} (hg : Gap gap) (ht : Phrase t) :
      Written (.bullet t) ('-' :: (gap ++ t))
  | ordered {number gap t : Text} (hn : number ≠ []) (hd : ∀ c ∈ number, digit c = true)
      (hg : Gap gap) (ht : Phrase t) : Written (.ordered t) (number ++ '.' :: (gap ++ t))
  | choice {choice : Choice} {state : Text} {checked : Bool}
      (hs : (state, checked) ∈ Choice.states) :
      Written (.choice choice checked []) (choice.box state)
  | labeledChoice {choice : Choice} {state gap t : Text} {checked : Bool}
      (hs : (state, checked) ∈ Choice.states) (hg : Gap gap) (ht : Phrase t) :
      Written (.choice choice checked t) (choice.box state ++ (gap ++ t))
  | quotedButton {primary : Bool} {label : Text} (hne : label ≠ []) (hl : '"' ∉ label) :
      Written (.button primary label) (bangs primary ++ '"' :: (label ++ ['"']))
  | bareButton {primary : Bool} {label : Text} (hl : Bare label) :
      Written (.button primary label) (bangs primary ++ label)
  | textarea {label : Option Text} {lead p rest : Text} (hl : Labeled label lead)
      (hp : Placed p rest) : Written (.textarea label p) (lead ++ '^' :: '^' :: rest)
  | input {label : Option Text} {lead name p rest : Text} (hl : Labeled label lead)
      (hne : name ≠ []) (hn : ∀ c ∈ name, c.isAlphanum = true ∨ c = '_') (hp : Placed p rest) :
      Written (.input label name p) (lead ++ '^' :: (name ++ rest))
  | icon {name : Text} (hne : name ≠ [])
      (hn : ∀ c ∈ name, c.isAlphanum = true ∨ c = '_' ∨ c = '-') :
      Written (.icon name) ('i' :: ':' :: name)
  | badge {label : Text} (hl : (Span.badge label).Proper) :
      Written (.badge label) (Span.badge label).source
  | link {label : Text} (hl : (Span.link label).Proper) (hf : ¬ EndsInField label) :
      Written (.link label) (Span.link label).source

/-- A widget as it is written is read by the rule of its kind. -/
theorem dispatch_of_written (h : Written w t) : dispatch t = (ruleName w, w) := by
  cases h with
  | heading hg ht =>
    have hrefused : ∀ u : Text, Refused u 0 := fun u => by simp [Refused]
    exact (hrefused _).dispatch_eq rfl (heading?_written hg ht)
  | rule => rfl
  | bullet hg ht => exact dispatch_bullet hg ht
  | ordered hn hd hg ht => exact dispatch_ordered hn hd hg ht
  | @choice choice state checked hs =>
    have hline : '\n' ∉ trimStart [] := by decide
    have hread := dispatch_choice choice hs hline
    rwa [List.append_nil] at hread
  | @labeledChoice choice state gap t checked hs hg ht =>
    have hstart : trimStart (gap ++ t) = t := dropWhile_append hg.chars ht.trimmed.1
    have hline : '\n' ∉ trimStart (gap ++ t) := by
      rw [hstart]
      exact ht.oneLine
    have hread := dispatch_choice choice hs hline
    rwa [hstart] at hread
  | quotedButton hne hl => exact dispatch_quotedButton hne hl
  | bareButton hl => exact dispatch_bareButton hl
  | textarea hl hp => exact dispatch_textarea hl hp
  | input hl hne hn hp =>
    exact dispatch_input hl ⟨hne, fun c hc => isFieldChar_iff.2 (hn c hc)⟩ hp
  | icon hne hn => exact dispatch_icon hne hn
  | badge hl => exact dispatch_badge hl
  | link hl hf => exact dispatch_link hl hf

end Widget

end Wireframe.Row
