import Wireframe.Proofs.Page.Widget
import Wireframe.Proofs.Row.Name

/-! Names of icons and of buttons on the page. The element of such a widget holds its name and
nothing else, so the page shows every name as it is, and the plain form of the same row shows it too
unless a link is written in it (`shows_name`). -/

namespace Wireframe.Page

open Row (IsName NameMark Span Widget)

/-- The widget of a name in its mark. -/
def nameWidget : NameMark → Text → Widget
  | .icon, name => .icon name
  | .button primary, name => .button primary name

variable {name : Text}

theorem written_nameWidget (h : IsName name) (mark : NameMark) :
    Widget.Written (nameWidget mark name) (mark.source name) := by
  cases mark with
  | icon => exact .icon h.isWord.1 fun c hc => Row.isIconChar_iff.1 (h.chars c hc)
  | button primary =>
    obtain ⟨c, hc, hletter⟩ := h.letter
    have hhead : ∀ d : Char, d.isAlpha = false → name.head? ≠ some d := by
      intro d hd hhead
      rw [Option.mem_unique hc hhead, hd] at hletter
      contradiction
    have hbare : ∀ d ∈ name, Row.isBareChar d = true := fun d hd =>
      Row.isBareChar_of_isIconChar (h.chars d hd)
    exact .bareButton ⟨h.isWord.1, fun d hd => Row.isBareChar_iff.1 (hbare d hd),
      hhead '!' (by decide), hhead '"' (by decide)⟩

/-- The text of the widget's element is the name. -/
theorem text_nameWidget (mark : NameMark) (name : Text) :
    unescape (withoutTags (widgetMarkup (nameWidget mark name)).print) = name := by
  have htext : ∀ {tag : Tag} {as : List Attribute},
      Leaf.Paired (startTag tag as) ('/' :: tag.name) →
      unescape (withoutTags (Markup.element tag as [.text name]).print) = name := by
    intro tag as htags
    have hprint := Leaf.withoutTags_print (e := ⟨startTag tag as, name, '/' :: tag.name⟩) htags []
    rw [List.append_nil] at hprint
    rw [print_element_text, hprint, withoutTags, outside, List.append_nil, unescape_escape]
  cases mark with
  | icon =>
    exact htext ⟨⟨by decide, by decide⟩, ⟨by decide, by decide⟩, ⟨by decide, by decide⟩, by decide⟩
  | button primary =>
    cases primary <;>
      exact htext
        ⟨⟨by decide, by decide⟩, ⟨by decide, by decide⟩, ⟨by decide, by decide⟩, by decide⟩

theorem text_dispatch (h : IsName name) (mark : NameMark) :
    unescape (withoutTags (dispatch (mark.source name)).2) = name := by
  rw [dispatch, Widget.dispatch_of_written (written_nameWidget h mark), text_nameWidget]

/-- The page shows a name as it is, and the plain form with the links in it replaced. So they show
the same name if and only if no link is written in it. -/
theorem shows_name (h : IsName name) (mark : NameMark) :
    unescape (withoutTags (dispatch (mark.source name)).2) = name ∧
      Row.plain (mark.source name) = mark.form (Row.link.replace id name) ∧
      (Row.plain (mark.source name) = mark.form name ↔
        ∀ label, (Span.link label).Proper → ¬ (Span.link label).source <:+: name) :=
  ⟨text_dispatch h mark, h.plain_source mark, h.plain_source_eq_form_iff mark⟩

/-- A name with an underscore and a dash. -/
theorem shows_name_sample : IsName "arrow-up_2".toList ∧
    unescape (withoutTags (dispatch "!!arrow-up_2".toList).2) = "arrow-up_2".toList ∧
      Row.plain "!!arrow-up_2".toList = "[! arrow-up_2]".toList := by
  have hname : IsName "arrow-up_2".toList := by decide
  obtain ⟨hpage, hplain, -⟩ := shows_name hname (.button true)
  exact ⟨hname, hpage, hplain.trans (by decide)⟩

/-- A name in which a part stands between underscores loses them in the plain form. -/
theorem shows_name_ne : IsName "a_b_c".toList ∧
    unescape (withoutTags (dispatch "i:a_b_c".toList).2) = "a_b_c".toList ∧
      Row.plain "i:a_b_c".toList = "<abc>".toList ∧
        Row.plain "i:a_b_c".toList ≠ NameMark.icon.form "a_b_c".toList := by
  have hname : IsName "a_b_c".toList := by decide
  have hplain : Row.plain "i:a_b_c".toList = "<abc>".toList := by decide
  refine ⟨hname, text_dispatch hname .icon, hplain, ?_⟩
  rw [hplain]
  decide

end Wireframe.Page
