import Mathlib.Data.List.Forall2
import Wireframe.Proofs.Text.Mark
import Wireframe.Proofs.Text.Numeral
import Wireframe.Row.Widget

/-! The rules for widgets in order. The first rule that does not refuse a text decides what it is
(`Refused.dispatch_eq`), so a text is known to be a widget once the rules before the one for that
widget are known to refuse it. Most refuse a text at its first character (`leads`); the two for
labelled controls do not. -/

namespace Wireframe.Row.Widget

open Text

/-- The name of the rule for a kind of widget. -/
def ruleName : Widget → Text
  | heading _ _ => "heading".toList
  | rule => "rule".toList
  | bullet _ => "bullet".toList
  | ordered _ => "ordered".toList
  | choice .checkbox _ _ => "checkbox".toList
  | choice .radio _ _ => "radio".toList
  | button true _ => "primary-button".toList
  | button false _ => "button".toList
  | textarea (some _) _ => "labeled-textarea".toList
  | textarea none _ => "textarea".toList
  | input (some _) _ _ => "labeled-input".toList
  | input none _ _ => "input".toList
  | icon _ => "icon".toList
  | badge _ => "badge".toList
  | link _ => "link".toList
  | paragraph _ => "paragraph".toList

/-! ### Rules in order -/

variable {t : Text} {i : ℕ} {name : Text} {reader : Text → Option Widget} {w : Widget}

/-- The first `i` rules refuse the text, in the order of `rules`. -/
def Refused (t : Text) (i : ℕ) : Prop := ∀ rule ∈ rules.take i, rule.2 t = none

theorem Refused.next (h : Refused t i) (hi : rules[i]? = some (name, reader))
    (hr : reader t = none) : Refused t (i + 1) := by
  rw [Refused, List.take_add_one, hi, Option.toList_some]
  intro rule hrule
  rcases List.mem_append.1 hrule with hrule | hrule
  · exact h rule hrule
  · rw [List.mem_singleton.1 hrule]
    exact hr

/-- The first rule that does not refuse the text decides. -/
theorem Refused.dispatch_eq (h : Refused t i) (hi : rules[i]? = some (name, reader))
    (hw : reader t = some w) : dispatch t = (name, w) := by
  obtain ⟨hlt, hget⟩ := List.getElem?_eq_some_iff.1 hi
  have hsplit : rules = rules.take i ++ (name, reader) :: rules.drop (i + 1) := by
    rw [← hget, ← List.drop_eq_getElem_cons hlt, List.take_append_drop]
  have hfind : (rules.findSome? fun rule => (rule.2 t).map (rule.1, ·)) = some (name, w) := by
    refine List.findSome?_eq_some_iff.2 ⟨_, _, _, hsplit, ?_, fun rule hrule => ?_⟩
    · simp only [hw, Option.map_some]
    · simp only [h rule hrule, Option.map_none]
  rw [dispatch, hfind, Option.getD_some]

/-- The characters that the texts of the rules start with. -/
def leads : List (Char → Bool) :=
  [(· = '#'), (· = '-'), (· = '-'), digit, (· = '['), (· = '('), (· = '!'), (· = '!'),
    fun _ => true, (· = '^'), fun _ => true, (· = '^'), (· = 'i'), (· = '\x60'), (· = '_')]

/-! ### Texts refused at their first character -/

theorem heading?_of_ends (h : Ends (· = '#') t) : heading? t = none := by
  have hlevel : ([] ++ t).takeWhile (· = '#') = [] := takeWhile_append (by simp) h
  rw [List.nil_append] at hlevel
  rw [heading?]
  simp only [hlevel]
  rw [dif_neg (by simp)]

theorem rule?_of_ends (h : Ends (· = '-') t) : rule? t = none := by
  rw [rule?, if_neg]
  rintro rfl
  exact absurd (h '-' rfl) (by decide)

theorem bullet?_of_ends (h : Ends (· = '-') t) : bullet? t = none := by
  rw [bullet?, after?_of_ends h]
  rfl

theorem ordered?_of_ends (h : Ends digit t) : ordered? t = none := by
  rw [ordered?, afterNumber?, afterRun?_of_ends h]
  rfl

theorem choice?_of_ends {choice : Choice} {opening closing : Char} (h : Ends (· = opening) t) :
    choice? choice opening closing t = none := by
  have hchecked : checked? opening closing t = none := by
    match t, h with
    | [], _ => rfl
    | [a], _ => rfl
    | [a, b], h =>
      have ha : a ≠ opening := of_decide_eq_false (h a rfl)
      simp [checked?, ha]
    | a :: b :: c :: t, h =>
      have ha : a ≠ opening := of_decide_eq_false (h a rfl)
      simp [checked?, ha]
  rw [choice?, hchecked, Option.bind_none]

theorem button?_of_ends {primary : Bool} {quoted bare : Mark} {c : Char} {more least : Text}
    (hq : quoted.opening = c :: more) (hb : bare.opening = c :: least) (h : Ends (· = c) t) :
    button? primary quoted bare t = none := by
  rw [button?, Mark.whole?_of_ends hq h, Mark.whole?_of_ends hb h]
  rfl

theorem area?_of_ends (h : Ends (· = '^') t) : area? t = none := by
  rw [area?, area, after?_of_ends h, Option.bind_none]

theorem field?_of_ends (h : Ends (· = '^') t) : field? t = none := by
  rw [field?, Mark.read?_of_ends rfl h, Option.bind_none]

theorem textarea?_of_ends (h : Ends (· = '^') t) : textarea? t = none := by
  rw [textarea?, area?_of_ends h, Option.map_none]

theorem input?_of_ends (h : Ends (· = '^') t) : input? t = none := by
  rw [input?, field?_of_ends h, Option.map_none]

theorem eq_nil_of_ends_true (h : Ends (fun _ => true) t) : t = [] := by
  cases t with
  | nil => rfl
  | cons c t => exact absurd (h c rfl) (by simp)

/-- A rule refuses a text that does not start with one of its characters. -/
theorem refuses_leads (t : Text) :
    List.Forall₂ (fun lead rule => Ends lead t → rule.2 t = none) leads rules := by
  have hlabeled : ∀ {f : Text × Text → Option Widget}, Ends (fun _ => true) t →
      (labeled? t).bind f = none := by
    intro f h
    rw [eq_nil_of_ends_true h]
    rfl
  have hmark : ∀ {m : Mark} {c : Char} {more : Text} {f : Text → Widget}, m.opening = c :: more →
      Ends (· = c) t → (m.whole? t).map f = none := by
    intro m c more f ho h
    rw [Mark.whole?_of_ends ho h, Option.map_none]
  exact .cons heading?_of_ends <| .cons rule?_of_ends <| .cons bullet?_of_ends <|
    .cons ordered?_of_ends <| .cons choice?_of_ends <| .cons choice?_of_ends <|
    .cons (button?_of_ends rfl rfl) <| .cons (button?_of_ends rfl rfl) <| .cons hlabeled <|
    .cons textarea?_of_ends <| .cons hlabeled <| .cons input?_of_ends <| .cons (hmark rfl) <|
    .cons (hmark rfl) <| .cons (hmark rfl) .nil

theorem Refused.of_leads (h : ∀ lead ∈ leads.take i, Ends lead t) : Refused t i := by
  have hrules := List.forall₂_take i (refuses_leads t)
  rw [Refused]
  generalize leads.take i = ls at h hrules
  generalize rules.take i = rs at hrules ⊢
  induction hrules with
  | nil => simp
  | cons hrule _ ih =>
    obtain ⟨hlead, h⟩ := List.forall_mem_cons.1 h
    exact List.forall_mem_cons.2 ⟨hrule hlead, ih h⟩

theorem Refused.of_head {c : Char} (h : (leads.take i).all (fun lead => ! lead c) = true)
    (t : Text) : Refused (c :: t) i :=
  .of_leads fun _ hlead => ends_cons (by simpa using List.all_eq_true.1 h _ hlead) t

/-- The eight rules before those for labelled controls have marks in front. -/
theorem Refused.of_letter {c : Char} (hc : c.isAlpha = true) (t : Text) : Refused (c :: t) 8 := by
  have hne : ∀ d : Char, d.isAlpha = false → c ≠ d :=
    fun d hd => ne_of_apply_ne Char.isAlpha (by simp [hc, hd])
  refine .of_head ?_ t
  simp [leads, digit_eq_false_of_isAlpha hc, hne '#' rfl, hne '-' rfl, hne '[' rfl, hne '(' rfl,
    hne '!' rfl]

end Wireframe.Row.Widget
