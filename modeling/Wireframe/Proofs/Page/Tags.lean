import Wireframe.Proofs.Node.Skeleton
import Wireframe.Proofs.Page.Grammar
import Wireframe.Proofs.Text.Run

/-! The tags of markup. Neither names nor values hold an angle bracket, so the tags of printed
markup are found again between its angle brackets (`tagsIn_print`). Start tags and end tags nest, so
reading the tags from the right gives back how the elements were nested (`readTags_tagsIn_print`). A
start tag tells its attributes (`startTag_inj`), whatever their values are. -/

namespace Wireframe.Page

/-! ### Unescaping -/

/-- The text that escaped text stands for. -/
def unescape : Text → Text
  | [] => []
  | '&' :: 'a' :: 'm' :: 'p' :: ';' :: t => '&' :: unescape t
  | '&' :: 'l' :: 't' :: ';' :: t => '<' :: unescape t
  | '&' :: 'g' :: 't' :: ';' :: t => '>' :: unescape t
  | '&' :: 'q' :: 'u' :: 'o' :: 't' :: ';' :: t => '"' :: unescape t
  | '&' :: '#' :: '3' :: '9' :: ';' :: t => '\'' :: unescape t
  | c :: t => c :: unescape t

theorem unescape_cons {c : Char} (hc : c ≠ '&') (t : Text) :
    unescape (c :: t) = c :: unescape t := by
  rw [unescape] <;> intros <;> exact hc ‹c = '&'›

theorem unescape_escapeChar (c : Char) (t : Text) :
    unescape (escapeChar c ++ t) = c :: unescape t := by
  by_cases hc : c ∈ '&' :: special
  · simp only [special, List.mem_cons, List.not_mem_nil, or_false] at hc
    rcases hc with rfl | rfl | rfl | rfl | rfl <;> rfl
  · rw [escapeChar_of_notMem hc]
    exact unescape_cons (fun h => hc (h ▸ List.mem_cons_self)) t

theorem unescape_escape_append (s t : Text) : unescape (escape s ++ t) = s ++ unescape t := by
  induction s with
  | nil => rfl
  | cons c s ih =>
    rw [escape, List.flatMap_cons, List.append_assoc, unescape_escapeChar]
    exact congrArg (c :: ·) ih

theorem unescape_escape (t : Text) : unescape (escape t) = t := by
  have h := unescape_escape_append t []
  rwa [List.append_nil, unescape, List.append_nil] at h

theorem escape_injective : Function.Injective escape := fun s t h => by
  rw [← unescape_escape s, h, unescape_escape]

/-! ### Start tags -/

/-- What stands between the angle brackets of a start tag. -/
def startTag (tag : Tag) (attributes : List Attribute) : Text :=
  tag.name ++ printAttributes attributes

/-- The text of an element, given that of its attributes and that of its children. -/
def elementText (name attributes inner : Text) : Text :=
  '<' :: (name ++ attributes ++ '>' :: (inner ++ '<' :: '/' :: (name ++ ['>'])))

theorem print_element (tag : Tag) (attributes : List Attribute) (children : List Markup) :
    (Markup.element tag attributes children).print =
      elementText tag.name (printAttributes attributes) (Markup.printAll children) := by
  simp [Markup.print, elementText]

theorem printAll_singleton (m : Markup) : Markup.printAll [m] = m.print := List.append_nil _

theorem head?_printAttributes (as : List Attribute) :
    ∀ c ∈ (printAttributes as).head?, c = ' ' := by
  intro c hc
  cases as with
  | nil => contradiction
  | cons a as => exact (Option.some.inj hc).symm

/-- What follows the name of an attribute, given the attributes after it. -/
def afterName (value : Option Text) (as : List Attribute) : Text :=
  match value with
  | some value => '=' :: '"' :: (escape value ++ '"' :: printAttributes as)
  | none => printAttributes as

theorem printAttributes_cons (a : Attribute) (as : List Attribute) :
    printAttributes (a :: as) = ' ' :: (a.name ++ afterName a.value as) := by
  rw [printAttributes, List.flatMap_cons, Attribute.print]
  cases a.value <;> simp [afterName, printAttributes]

theorem quote_notMem_escape (value : Text) : ∀ c ∈ escape value, decide (c ≠ '"') = true :=
  Text.forall_ne_iff.2 (not_mem_escape value (by decide))

theorem afterName_inj {v w : Option Text} {as bs : List Attribute}
    (h : afterName v as = afterName w bs) : v = w ∧ printAttributes as = printAttributes bs := by
  have hne : ∀ {value : Text} {cs ds : List Attribute}, printAttributes cs ≠
      '=' :: '"' :: (escape value ++ '"' :: printAttributes ds) := by
    intro value cs ds h
    have := head?_printAttributes cs '=' (by rw [h]; rfl)
    contradiction
  match v, w, h with
  | none, none, h => exact ⟨rfl, h⟩
  | none, some w, h => exact absurd h hne
  | some v, none, h => exact absurd h.symm hne
  | some v, some w, h =>
    have h := (List.cons.inj (List.cons.inj h).2).2
    obtain ⟨hv, hrest⟩ := Text.append_inj_of_ends (quote_notMem_escape v) (quote_notMem_escape w)
      (Text.ends_cons (by decide) _) (Text.ends_cons (by decide) _) h
    exact ⟨congrArg some (escape_injective hv), (List.cons.inj hrest).2⟩

/-- The characters of the names of attributes. -/
def isNameChar (c : Char) : Bool := c.isLower || c = '-'

/-- Attributes are told by what is printed for them. -/
theorem printAttributes_inj {as bs : List Attribute} (ha : ∀ a ∈ as, AttributeName a.name)
    (hb : ∀ b ∈ bs, AttributeName b.name) (h : printAttributes as = printAttributes bs) :
    as = bs := by
  have hname : ∀ {name : Text}, AttributeName name → ∀ c ∈ name, isNameChar c = true := by
    intro name hn c hc
    simpa [isNameChar] using hn.2 c hc
  have hafter : ∀ (v : Option Text) (cs : List Attribute),
      Text.Ends isNameChar (afterName v cs) := by
    intro v cs c hc
    cases v with
    | none =>
      rw [head?_printAttributes cs c hc]
      decide
    | some v =>
      obtain rfl : '=' = c := Option.some.inj hc
      decide
  induction as generalizing bs with
  | nil =>
    cases bs with
    | nil => rfl
    | cons b bs =>
      rw [printAttributes_cons] at h
      exact absurd h.symm (List.cons_ne_nil _ _)
  | cons a as ih =>
    cases bs with
    | nil =>
      rw [printAttributes_cons] at h
      exact absurd h (List.cons_ne_nil _ _)
    | cons b bs =>
      obtain ⟨hna, ha⟩ := List.forall_mem_cons.1 ha
      obtain ⟨hnb, hb⟩ := List.forall_mem_cons.1 hb
      rw [printAttributes_cons, printAttributes_cons] at h
      obtain ⟨hn, h⟩ := Text.append_inj_of_ends (hname hna) (hname hnb) (hafter _ _) (hafter _ _)
        (List.cons.inj h).2
      obtain ⟨hv, h⟩ := afterName_inj h
      have hab : a = b := by
        cases a
        cases b
        simp_all
      rw [hab, ih ha hb h]

theorem isAlphanum_of_mem_name (tag : Tag) : ∀ c ∈ tag.name, c.isAlphanum = true := by
  intro c hc
  have hall : ∀ name ∈ elementNames ++ voidNames, name.all Char.isAlphanum = true := by decide
  have := hall tag.name (List.mem_append_left _ tag.name_mem_elementNames)
  exact List.all_eq_true.1 this c hc

theorem ends_printAttributes (as : List Attribute) :
    Text.Ends Char.isAlphanum (printAttributes as) := by
  intro c hc
  rw [head?_printAttributes as c hc]
  decide

theorem startTag_inj {s t : Tag} {as bs : List Attribute} (ha : ∀ a ∈ as, AttributeName a.name)
    (hb : ∀ b ∈ bs, AttributeName b.name) (h : startTag s as = startTag t bs) :
    s.name = t.name ∧ as = bs := by
  obtain ⟨hn, h⟩ := Text.append_inj_of_ends (isAlphanum_of_mem_name s) (isAlphanum_of_mem_name t)
    (ends_printAttributes as) (ends_printAttributes bs) h
  exact ⟨hn, printAttributes_inj ha hb h⟩

/-! ### Tags in text -/

/-- What stands between the angle brackets of a text. -/
def tagsIn : Text → List Text
  | [] => []
  | c :: t => if c = '<' then t.takeWhile (· ≠ '>') :: tagsIn t else tagsIn t

/-- Text without angle brackets. -/
def Bare (t : Text) : Prop := '<' ∉ t ∧ '>' ∉ t

theorem Bare.append {s t : Text} (hs : Bare s) (ht : Bare t) : Bare (s ++ t) :=
  ⟨by simp [hs.1, ht.1], by simp [hs.2, ht.2]⟩

theorem bare_escape (t : Text) : Bare (escape t) :=
  ⟨not_mem_escape t (by decide), not_mem_escape t (by decide)⟩

theorem Bare.tagsIn_append {s : Text} (hs : Bare s) (t : Text) : tagsIn (s ++ t) = tagsIn t := by
  obtain ⟨hs, -⟩ := hs
  induction s with
  | nil => rfl
  | cons c s ih =>
    rw [List.mem_cons, not_or] at hs
    rw [List.cons_append, tagsIn, if_neg (Ne.symm hs.1), ih hs.2]

theorem Bare.tagsIn_tag {tag : Text} (ht : Bare tag) (t : Text) :
    tagsIn ('<' :: (tag ++ '>' :: t)) = tag :: tagsIn t := by
  have hrest : tagsIn ('>' :: t) = tagsIn t := by
    rw [tagsIn, if_neg (by decide)]
  rw [tagsIn, if_pos rfl, Text.takeWhile_ne_append ht.2, ht.tagsIn_append, hrest]

theorem bare_of_isAlphanum {t : Text} (h : ∀ c ∈ t, c.isAlphanum = true) : Bare t := by
  constructor <;> intro hc <;> exact absurd (h _ hc) (by decide)

theorem bare_printAttributes {as : List Attribute} (h : ∀ a ∈ as, AttributeName a.name) :
    Bare (printAttributes as) := by
  induction as with
  | nil => exact ⟨by decide, by decide⟩
  | cons a as ih =>
    have hname : Bare a.name := by
      obtain ⟨-, hn⟩ := h a List.mem_cons_self
      constructor <;> intro hc <;> exact absurd (hn _ hc) (by decide)
    have hrest : Bare (printAttributes as) := ih fun b hb => h b (List.mem_cons_of_mem _ hb)
    have hafter : Bare (afterName a.value as) := by
      cases a.value with
      | none => exact hrest
      | some value =>
        exact Bare.append (s := ['=', '"']) ⟨by decide, by decide⟩ ((bare_escape value).append
          (Bare.append (s := ['"']) ⟨by decide, by decide⟩ hrest))
    rw [printAttributes_cons]
    exact Bare.append (s := [' ']) ⟨by decide, by decide⟩ (hname.append hafter)

namespace Markup

mutual

/-- The tags that markup is printed with, in their order. -/
def tags : Markup → List Text
  | text _ => []
  | element tag attributes children =>
    startTag tag attributes :: (tagsAll children ++ ['/' :: tag.name])
  | void tag attributes => [tag.name ++ printAttributes attributes ++ [' ', '/']]

def tagsAll : List Markup → List Text
  | [] => []
  | m :: ms => tags m ++ tagsAll ms

end

mutual

/-- The tags of printed markup are found again, whatever its texts and values are. -/
theorem tagsIn_print (m : Markup) (h : m.Named) (rest : Text) :
    tagsIn (m.print ++ rest) = m.tags ++ tagsIn rest := by
  cases m with
  | text t => exact (bare_escape t).tagsIn_append rest
  | element tag attributes children =>
    -- a bracket that opens a tag stands before its name, and the next one that closes ends it
    have hname : Bare tag.name := bare_of_isAlphanum (isAlphanum_of_mem_name tag)
    have hstart : Bare (startTag tag attributes) := hname.append (bare_printAttributes h.1)
    have hend : Bare ('/' :: tag.name) := Bare.append (s := ['/']) ⟨by decide, by decide⟩ hname
    have hprint : (element tag attributes children).print ++ rest =
        '<' :: (startTag tag attributes ++ '>' :: (printAll children ++
          '<' :: ('/' :: tag.name ++ '>' :: rest))) := by
      simp [print, startTag]
    rw [hprint, hstart.tagsIn_tag, tagsIn_printAll children h.2, hend.tagsIn_tag, tags]
    simp
  | void tag attributes =>
    have hname : Bare tag.name := by cases tag <;> exact ⟨by decide, by decide⟩
    have hslash : Bare [' ', '/'] := ⟨by decide, by decide⟩
    have htag : Bare (tag.name ++ printAttributes attributes ++ [' ', '/']) :=
      (hname.append (bare_printAttributes h)).append hslash
    have hprint : (void tag attributes).print ++ rest =
        '<' :: (tag.name ++ printAttributes attributes ++ [' ', '/'] ++ '>' :: rest) := by
      simp [print]
    rw [hprint, htag.tagsIn_tag]
    rfl

theorem tagsIn_printAll (ms : List Markup) (h : NamedAll ms) (rest : Text) :
    tagsIn (printAll ms ++ rest) = tagsAll ms ++ tagsIn rest := by
  cases ms with
  | nil => rfl
  | cons m ms =>
    rw [printAll, List.append_assoc, tagsIn_print m h.1, tagsIn_printAll ms h.2, tagsAll,
      List.append_assoc]

end

end Markup

/-! ### Nested elements -/

/-- The start tags of the elements that rows are shown as. -/
def rowTags : List Text :=
  [startTag .div [valued "class" "wt-row".toList],
    startTag .table [valued "class" "wt-table".toList]]

/-- What is left open before the start tag of the innermost element. -/
def closeElement (tag : Text) : (opened : List (List (Nesting Text))) → List (List (Nesting Text))
  | inner :: outer :: more =>
    if tag ∈ rowTags then outer :: more else (.node tag inner :: outer) :: more
  | opened => opened

/-- What is left open before a tag: what has been read in each open element, the innermost first.
The tags are read from the right, so an end tag opens an element and its start tag closes it. -/
def readTag (tag : Text) (opened : List (List (Nesting Text))) : List (List (Nesting Text)) :=
  if tag.head? = some '/' then [] :: opened
  else if tag.takeWhile Char.isAlphanum ∈ voidNames then opened
  else closeElement tag opened

def readTags (tags : List Text) : List (List (Nesting Text)) := tags.foldr readTag [[]]

namespace Markup

mutual

/-- The elements of markup as they are nested, without those that rows are shown as. -/
def nests : Markup → List (Nesting Text)
  | element tag attributes children =>
    if startTag tag attributes ∈ rowTags then []
    else [.node (startTag tag attributes) (nestsAll children)]
  | _ => []

def nestsAll : List Markup → List (Nesting Text)
  | [] => []
  | m :: ms => nests m ++ nestsAll ms

end

end Markup

theorem readTag_endTag (tag : Tag) (opened : List (List (Nesting Text))) :
    readTag ('/' :: tag.name) opened = [] :: opened := if_pos rfl

theorem takeWhile_startTag (tag : Tag) (as : List Attribute) :
    (startTag tag as).takeWhile Char.isAlphanum = tag.name :=
  Text.takeWhile_append (isAlphanum_of_mem_name tag) (ends_printAttributes as)

theorem takeWhile_void (tag : VoidTag) (as : List Attribute) :
    (tag.name ++ printAttributes as ++ [' ', '/']).takeWhile Char.isAlphanum = tag.name := by
  have hends : Text.Ends Char.isAlphanum (printAttributes as ++ [' ', '/']) := by
    cases as with
    | nil => exact fun c hc => Option.some.inj hc ▸ by decide
    | cons a as => exact ends_printAttributes (a :: as)
  have hname : ∀ c ∈ tag.name, c.isAlphanum = true := by
    cases tag <;> exact List.all_eq_true.1 (by decide)
  rw [List.append_assoc, Text.takeWhile_append hname hends]

theorem readTag_void (tag : VoidTag) (as : List Attribute) (opened : List (List (Nesting Text))) :
    readTag (tag.name ++ printAttributes as ++ [' ', '/']) opened = opened := by
  have hhead : (tag.name ++ printAttributes as ++ [' ', '/']).head? ≠ some '/' := by
    cases tag <;> simp [VoidTag.name]
  rw [readTag, if_neg hhead, takeWhile_void, if_pos tag.name_mem_voidNames]

theorem readTag_startTag (tag : Tag) (as : List Attribute) (inner outer : List (Nesting Text))
    (more : List (List (Nesting Text))) :
    readTag (startTag tag as) (inner :: outer :: more) =
      ((if startTag tag as ∈ rowTags then [] else [.node (startTag tag as) inner]) ++ outer) ::
        more := by
  have hnames : ∀ name ∈ elementNames, name.head?.all (· ≠ '/') = true ∧ name ≠ [] ∧
      name ∉ voidNames := by decide
  obtain ⟨hslash, hne, hvoid⟩ := hnames tag.name tag.name_mem_elementNames
  have hhead : (startTag tag as).head? ≠ some '/' := by
    obtain ⟨c, t, ht⟩ := List.exists_cons_of_ne_nil hne
    simpa [startTag, ht] using hslash
  rw [readTag, if_neg hhead, takeWhile_startTag, if_neg hvoid, closeElement]
  split <;> rfl

namespace Markup

mutual

/-- Read from the right, the tags of markup leave open what was open after it, with the elements of
the markup put before what was read of the innermost. -/
theorem foldr_readTag_tags (m : Markup) (outer : List (Nesting Text))
    (more : List (List (Nesting Text))) :
    m.tags.foldr readTag (outer :: more) = (m.nests ++ outer) :: more := by
  cases m with
  | text t => rfl
  | element tag attributes children =>
    -- the end tag opens a list for the children, and the start tag takes it off again
    rw [tags, List.foldr_cons, List.foldr_append, List.foldr_cons, List.foldr_nil, readTag_endTag,
      foldr_readTag_tagsAll children, readTag_startTag, List.append_nil, nests]
  | void tag attributes => exact readTag_void tag attributes _

theorem foldr_readTag_tagsAll (ms : List Markup) (outer : List (Nesting Text))
    (more : List (List (Nesting Text))) :
    (tagsAll ms).foldr readTag (outer :: more) = (nestsAll ms ++ outer) :: more := by
  cases ms with
  | nil => rfl
  | cons m ms =>
    rw [tagsAll, List.foldr_append, foldr_readTag_tagsAll ms, foldr_readTag_tags m, nestsAll,
      List.append_assoc]

end

/-- Markup tells how its elements are nested when it is printed. -/
theorem readTags_tagsIn_print (m : Markup) (h : m.Named) :
    readTags (tagsIn m.print) = [m.nests] := by
  rw [← List.append_nil m.print, tagsIn_print m h]
  simp [tagsIn, readTags, foldr_readTag_tags]

end Markup

end Wireframe.Page
