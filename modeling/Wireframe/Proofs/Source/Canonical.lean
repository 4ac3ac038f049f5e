import Wireframe.Proofs.Source.Header
import Wireframe.Proofs.Source.Parse

/-! Canonical trees, the trees that sources have. The top of a canonical tree is its
only root, sections and groups lie at most `maxDepth` levels below it, and rows and
section headers hold only what a line can say. Every tree of a source is canonical
(`canonical_of_parse`): each entry that a line makes is, and a tree is canonical when
the entries of its outline are. -/

namespace Wireframe

/-! ### Rows and section headers -/

/-- The texts of rows: those of lines that are neither a bracket nor a header. -/
structure RowText (t : Text) : Prop where
  ne_nil : t ≠ []
  trimmed : t.Trimmed
  oneLine : t.OneLine
  ne_open : t ≠ ['[']
  ne_close : t ≠ [']']
  head_ne : t.head? ≠ some '='

theorem rowText_iff {t : Text} :
    RowText t ↔
      t ≠ [] ∧ t.Trimmed ∧ t.OneLine ∧ t ≠ ['['] ∧ t ≠ [']'] ∧ t.head? ≠ some '=' :=
  ⟨fun h => ⟨h.ne_nil, h.trimmed, h.oneLine, h.ne_open, h.ne_close, h.head_ne⟩,
    fun ⟨h1, h2, h3, h4, h5, h6⟩ => ⟨h1, h2, h3, h4, h5, h6⟩⟩

instance (t : Text) : Decidable (RowText t) := decidable_of_iff _ rowText_iff.symm

/-- The names and ratios of sections. A name with a ratio is one word, and a name without is
trimmed, on one line and not itself a name with a ratio. -/
def SectionHead (name : Text) : Option Ratio → Prop
  | some r => name ≠ [] ∧ (∀ c ∈ name, blank c = false) ∧ 0 < r.n ∧ 0 < r.d
  | none => name.Trimmed ∧ name.OneLine ∧ ∀ word r, ¬ Source.Ratioed name word r

theorem trimmed_of_not_blank {t : Text} (h : ∀ c ∈ t, blank c = false) : t.Trimmed :=
  ⟨fun c hc => h c (List.mem_of_mem_head? hc), fun c hc => h c (List.mem_of_mem_getLast? hc)⟩

/-- Every section name is trimmed and on one line, with a ratio or without. -/
theorem SectionHead.name {name : Text} {ratio : Option Ratio} (h : SectionHead name ratio) :
    name.Trimmed ∧ name.OneLine := by
  cases ratio with
  | none => exact ⟨h.1, h.2.1⟩
  | some r => exact ⟨trimmed_of_not_blank h.2.1, Text.oneLine_of_not_blank h.2.1⟩

/-- Reading settles whether a name could be taken for a name with a ratio. -/
theorem sectionHead_none_iff {name : Text} :
    SectionHead name none ↔
      name.Trimmed ∧ name.OneLine ∧ Source.readRatioed? name = none := by
  refine and_congr_right fun ht => and_congr_right fun _ => ?_
  simp only [Option.eq_none_iff_forall_ne_some, Prod.forall, ne_eq,
    Source.readRatioed?_eq_some_iff ht.1]

instance (name : Text) : (ratio : Option Ratio) → Decidable (SectionHead name ratio)
  | none => decidable_of_iff _ sectionHead_none_iff.symm
  | some r =>
    haveI : Decidable (∀ c ∈ name, blank c = false) := List.decidableBAll _ name
    inferInstanceAs (Decidable (name ≠ [] ∧ (∀ c ∈ name, blank c = false) ∧ 0 < r.n ∧ 0 < r.d))

/-- Items that a line can make at a depth, counted from the top of the outline. -/
def Item.CanonicalAt (depth : Nat) : Item → Prop
  | .root => False
  | .sect name ratio => depth < Source.maxDepth ∧ SectionHead name ratio
  | .group => depth < Source.maxDepth
  | .row text => RowText text

/-! ### Trees -/

namespace Node

mutual

/-- A tree below the root whose top lies the given number of levels under it. -/
def CanonicalAt (level : Nat) : Node → Prop
  | root _ => False
  | sect name ratio children =>
    level ≤ Source.maxDepth ∧ SectionHead name ratio ∧ CanonicalAllAt (level + 1) children
  | group children => level ≤ Source.maxDepth ∧ CanonicalAllAt (level + 1) children
  | row text => RowText text

def CanonicalAllAt (level : Nat) : List Node → Prop
  | [] => True
  | t :: ts => CanonicalAt level t ∧ CanonicalAllAt level ts

end

/-- A root with canonical trees below it. -/
def Canonical : Node → Prop
  | root children => CanonicalAllAt 1 children
  | _ => False

mutual

def decidableCanonicalAt (level : Nat) : (t : Node) → Decidable (t.CanonicalAt level)
  | root _ => .isFalse id
  | sect name ratio children =>
    haveI := decidableCanonicalAllAt (level + 1) children
    inferInstanceAs (Decidable (level ≤ Source.maxDepth ∧ SectionHead name ratio ∧
      CanonicalAllAt (level + 1) children))
  | group children =>
    haveI := decidableCanonicalAllAt (level + 1) children
    inferInstanceAs (Decidable (level ≤ Source.maxDepth ∧ CanonicalAllAt (level + 1) children))
  | row text => inferInstanceAs (Decidable (RowText text))

def decidableCanonicalAllAt (level : Nat) : (ts : List Node) → Decidable (CanonicalAllAt level ts)
  | [] => .isTrue trivial
  | t :: ts =>
    haveI := decidableCanonicalAt level t
    haveI := decidableCanonicalAllAt level ts
    inferInstanceAs (Decidable (CanonicalAt level t ∧ CanonicalAllAt level ts))

end

instance : (t : Node) → Decidable t.Canonical
  | root children => decidableCanonicalAllAt 1 children
  | sect _ _ _ | group _ | row _ => .isFalse id

mutual

theorem canonicalAt_of_outline (d : Nat) (t : Node)
    (h : ∀ e ∈ t.outline d, e.item.CanonicalAt e.depth) : t.CanonicalAt (d + 1) := by
  cases t with
  | root ts => exact h ⟨d, .root⟩ (by simp [outline])
  | sect name ratio ts =>
    obtain ⟨hd, hs⟩ := h ⟨d, .sect name ratio⟩ (by simp [outline])
    exact ⟨hd, hs, canonicalAllAt_of_outline (d + 1) ts fun e he => h e (by simp [outline, he])⟩
  | group ts =>
    have hd := h ⟨d, .group⟩ (by simp [outline])
    exact ⟨hd, canonicalAllAt_of_outline (d + 1) ts fun e he => h e (by simp [outline, he])⟩
  | row text => exact h ⟨d, .row text⟩ (by simp [outline])

theorem canonicalAllAt_of_outline (d : Nat) (ts : List Node)
    (h : ∀ e ∈ outlineAll d ts, e.item.CanonicalAt e.depth) : CanonicalAllAt (d + 1) ts := by
  cases ts with
  | nil => trivial
  | cons t ts =>
    exact ⟨canonicalAt_of_outline d t fun e he => h e (by simp [outlineAll, he]),
      canonicalAllAt_of_outline d ts fun e he => h e (by simp [outlineAll, he])⟩

end

mutual

theorem sectionHead_of_mem_items {level : Nat} {t : Node} (h : t.CanonicalAt level) :
    ∀ name ratio, .sect name ratio ∈ t.items → SectionHead name ratio := by
  intro name ratio hm
  cases t with
  | root ts => exact h.elim
  | sect name' ratio' ts =>
    rw [items, List.mem_cons] at hm
    rcases hm with hm | hm
    · obtain ⟨rfl, rfl⟩ := Item.sect.inj hm
      exact h.2.1
    · exact sectionHead_of_mem_itemsAll h.2.2 name ratio hm
  | group ts =>
    rw [items, List.mem_cons] at hm
    exact sectionHead_of_mem_itemsAll h.2 name ratio (hm.resolve_left (by simp))
  | row text => simp [items] at hm

theorem sectionHead_of_mem_itemsAll {level : Nat} {ts : List Node} (h : CanonicalAllAt level ts) :
    ∀ name ratio, .sect name ratio ∈ itemsAll ts → SectionHead name ratio := by
  intro name ratio hm
  cases ts with
  | nil => simp [itemsAll] at hm
  | cons t ts =>
    rw [itemsAll, List.mem_append] at hm
    rcases hm with hm | hm
    · exact sectionHead_of_mem_items h.1 name ratio hm
    · exact sectionHead_of_mem_itemsAll h.2 name ratio hm

end

end Node

/-! ### Lines -/

namespace Source

open Node Outline

/-- What is known of the text of every line. -/
theorem text_of_mem_linesOf {source : Text} {line : Line} (h : line ∈ linesOf source) :
    line.text ≠ [] ∧ line.text.Trimmed ∧ line.text.OneLine := by
  simp only [linesOf, List.mem_filterMap, Line.read?] at h
  obtain ⟨⟨raw, number⟩, hm, hr⟩ := h
  have hraw : raw ∈ Text.lines source := List.fst_mem_of_mem_zipIdx hm
  dsimp only at hr
  split at hr
  · contradiction
  · next hb =>
    obtain rfl := Option.some.inj hr
    exact ⟨Text.trim_ne_nil (by simpa using hb), Text.trimmed_trim raw,
      Text.oneLine_trim (Text.oneLine_of_mem_lines source raw hraw)⟩

theorem oneLine_dropFirst {c : Char} {t : Text} (h : t.OneLine) : (t.dropFirst c).OneLine := by
  unfold Text.dropFirst
  split
  · exact fun d hd => h d (List.mem_of_mem_tail hd)
  · exact h

/-- A header is read as the name and the ratio of a section. -/
theorem sectionHead_readHeader {text : Text} (h : text.OneLine) :
    SectionHead (readHeader text).1 (readHeader text).2 := by
  have ht := Text.trimmed_trim (Text.dropFirst '=' text)
  unfold readHeader
  dsimp only
  cases hr : readRatioed? (Text.trim (Text.dropFirst '=' text)) with
  | none => exact sectionHead_none_iff.2 ⟨ht, Text.oneLine_trim (oneLine_dropFirst h), hr⟩
  | some found =>
    obtain ⟨name, r⟩ := found
    obtain ⟨_, n, d, -, hne, hw, -, -, hn, hd⟩ := ratioed_of_readRatioed? ht.1 hr
    exact ⟨hne, hw, hn.pos, hd.pos⟩

/-- A line that is placed makes a canonical item. -/
theorem canonicalAt_of_form {line : Line} {item : Item} {depth : Nat}
    (hf : line.form = .item item) (hd : scopeOf? line.indent item ≠ none → depth < maxDepth)
    (hne : line.text ≠ []) (ht : line.text.Trimmed) (ho : line.text.OneLine) :
    item.CanonicalAt depth := by
  cases item with
  | root => exact absurd hf (read_ne_root _)
  | sect name ratio =>
    obtain ⟨-, hh⟩ := read_eq_sect_iff.1 hf
    have := sectionHead_readHeader ho
    rw [hh] at this
    exact ⟨hd (by simp [scopeOf?]), this⟩
  | group => exact hd (by simp [scopeOf?])
  | row text =>
    obtain ⟨rfl, hc, hop, hs⟩ := read_eq_row_iff.1 hf
    exact ⟨hne, ht, ho, hop, hc, hs⟩

theorem canonicalAt_of_mem_outline {scopes : List Scope} {lines : List Line} {o : Outline}
    (h : outline scopes lines = .ok o)
    (hl : ∀ line ∈ lines, line.text ≠ [] ∧ line.text.Trimmed ∧ line.text.OneLine) :
    ∀ e ∈ o, e.item.CanonicalAt e.depth := by
  induction lines generalizing scopes o with
  | nil =>
    obtain rfl := Except.ok.inj h
    simp
  | cons line lines ih =>
    obtain ⟨scopes', entry, more, hp, hm, rfl⟩ := outline_cons_eq_ok h
    have hrest := ih hm fun line' hl' => hl line' (by simp [hl'])
    rcases place_eq_ok hp with ⟨-, -, rfl⟩ | ⟨item, outer, hf, -, hd, -, rfl⟩
    · exact hrest
    · obtain ⟨hne, ht, ho⟩ := hl line (by simp)
      intro e he
      rcases List.mem_cons.1 he with rfl | he
      · exact canonicalAt_of_form hf hd hne ht ho
      · exact hrest e he

theorem canonicalAllAt_of_parse {source : Text} {ts : List Node}
    (ho : outline [] (linesOf source) = .ok (outlineAll 0 ts)) : CanonicalAllAt 1 ts :=
  canonicalAllAt_of_outline 0 ts
    (canonicalAt_of_mem_outline ho fun _ hl => text_of_mem_linesOf hl)

/-- Every tree of a source is canonical; in particular all its section names are trimmed and on one
line. -/
theorem canonical_of_parse {source : Text} {t : Node} (h : parse source = .ok t) :
    t.Canonical ∧ ∀ name ratio, .sect name ratio ∈ t.items → name.Trimmed ∧ name.OneLine := by
  obtain ⟨ts, rfl, ho⟩ := parse_eq_ok_iff.1 h
  have hc := canonicalAllAt_of_parse ho
  refine ⟨hc, fun name ratio hm => ?_⟩
  rw [items, List.mem_cons] at hm
  exact (sectionHead_of_mem_itemsAll hc name ratio (hm.resolve_left (by simp))).name

/-- A source with both kinds of headers, an unclosed group and two kinds of line ends. -/
theorem canonical_of_parse_sample :
    parse "=nav 1/3 \r\n  [\n=a 0/3\n\n   x ]\r".toList =
        .ok (.root [.sect "nav".toList (some ⟨1, 3⟩) [.group [.sect "a 0/3".toList none
          [.row "x ]".toList]]]]) ∧
      (Node.root [.sect "nav".toList (some ⟨1, 3⟩) [.group [.sect "a 0/3".toList none
          [.row "x ]".toList]]]]).Canonical :=
  have h : parse "=nav 1/3 \r\n  [\n=a 0/3\n\n   x ]\r".toList =
      .ok (.root [.sect "nav".toList (some ⟨1, 3⟩) [.group [.sect "a 0/3".toList none
        [.row "x ]".toList]]]]) := by rfl
  ⟨h, (canonical_of_parse h).1⟩

end Source

end Wireframe
